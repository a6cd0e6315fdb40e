import JaplusProxy.CString

/-! The string predicates of proxy.c, shared by the command filter and the
userinfo sanitizer. Each loop of the source visits every byte up to the NUL. -/
namespace JaplusProxy
open CString

/-! ### Byte classes -/

def isCRLF (c : UInt8) : Bool := c == chr '\r' || c == chr '\n'

def isChaining (c : UInt8) : Bool := c == chr ';'

def isTokenByte (c : UInt8) : Bool :=
  (chr 'a' ≤ c && c ≤ chr 'z') || (chr 'A' ≤ c && c ≤ chr 'Z') || (chr '0' ≤ c && c ≤ chr '9') ||
    c == chr '_' || c == chr '-'

def isPathByte (c : UInt8) : Bool := isTokenByte c || c == chr '/' || c == chr '.'

def isNumberByte (c : UInt8) : Bool :=
  (chr '0' ≤ c && c ≤ chr '9') || c == chr '-' || c == chr '+' || c == chr '.' || c == chr ' ' ||
    c == chr '\t'

def isAsciiByte (c : UInt8) : Bool := 32 ≤ c && c ≤ 126

/-! ### Strings -/

def hasCRLF (s : Bytes) : Bool := s.any isCRLF
def hasChaining (s : Bytes) : Bool := s.any isChaining
def isTokenChars (s : Bytes) : Bool := s.all isTokenByte
def isNumberChars (s : Bytes) : Bool := s.all isNumberByte
def isAsciiClean (s : Bytes) : Bool := s.all isAsciiByte

def isMapChars (s : Bytes) : Bool :=
  s.all isPathByte && !(peek s == chr '.' && peek s.tail == chr '.' && peek s.tail.tail == 0) &&
    !(strstr (lit "../") s || strstr (lit "..\\") s)

def isPathChars (s : Bytes) : Bool :=
  s.all isPathByte && !(strstr (lit "../") s || strstr (lit "..\\") s)

/-- Compares `n` bytes; a common end of both strings counts as a match. -/
def strCasePrefix : Bytes → Bytes → Nat → Bool
  | _, _, 0 => true
  | s, pre, n + 1 =>
    if lower (peek s) ≠ lower (peek pre) then false
    else if lower (peek s) = 0 then true
    else strCasePrefix s.tail pre.tail n

/-- Compares `n` bytes and asks for the end of `a` at index `n`, whatever the length of `b`. -/
def strCaseEq : Bytes → Bytes → Nat → Bool
  | a, _, 0 => peek a == 0
  | a, b, n + 1 =>
    if lower (peek a) ≠ lower (peek b) then false
    else if lower (peek a) = 0 then true
    else strCaseEq a.tail b.tail n

/-! ### Paths -/

/-- The other search is idle, since a backslash is no path byte. -/
theorem isPathChars_iff : isPathChars s = true ↔ (∀ c ∈ s, isPathByte c = true) ∧ ¬ lit "../" <:+: s := by
  simp only [isPathChars, Bool.and_eq_true, List.all_eq_true, Bool.not_eq_true', Bool.or_eq_false_iff,
    ← strstr_iff, Bool.not_eq_true]
  refine and_congr_right fun bytes => and_iff_left ?_
  rw [← Bool.not_eq_true, strstr_iff]
  intro found
  exact absurd (bytes (chr '\\') (found.subset (by decide))) (by decide)

theorem isMapChars_iff (nulFree : 0 ∉ s) : isMapChars s = true ↔
    (∀ c ∈ s, isPathByte c = true) ∧ s ≠ lit ".." ∧ ¬ lit "../" <:+: s := by
  have parent : (peek s == chr '.' && peek s.tail == chr '.' && peek s.tail.tail == 0) = true ↔ s = lit ".." := by
    have dot : chr '.' ≠ 0 := by decide
    rcases s with _ | ⟨a, _ | ⟨b, _ | ⟨c, s⟩⟩⟩
    · decide
    · simp [lit, dot.symm]
    · simp [lit]
    · simp only [List.mem_cons, not_or] at nulFree
      simp [lit, Ne.symm nulFree.2.2.1]
  have path := isPathChars_iff (s := s)
  simp only [isPathChars, Bool.and_eq_true] at path
  rw [isMapChars, Bool.and_right_comm, Bool.and_eq_true, Bool.and_eq_true, path, Bool.not_eq_true', ← Bool.not_eq_true,
    parent, and_assoc, and_comm (a := ¬ _)]

/-! ### Cut strings -/

theorem peek_take (s : Bytes) (k : Nat) : peek (s.take (k + 1)) = peek s := by
  cases s <;> rfl

theorem tail_take (s : Bytes) (k : Nat) : (s.take (k + 1)).tail = s.tail.take k := by
  cases s <;> simp

/-- A word ends before the cut or begins too late for that. -/
theorem infix_take_drop (s word : Bytes) (k : Nat) :
    word <:+: s ↔ word <:+: s.take k ∨ word <:+: s.drop (k + 1 - word.length) := by
  constructor
  · rintro ⟨front, back, rfl⟩
    by_cases before : front.length + word.length ≤ k
    · left
      rw [List.take_append, List.take_of_length_le (by simpa using before)]
      exact ⟨front, _, rfl⟩
    · right
      rw [List.append_assoc, List.drop_append_of_le_length (by omega)]
      exact ⟨_, back, List.append_assoc ..⟩
  · rintro (shown | behind)
    · exact shown.trans (List.take_prefix k s).isInfix
    · exact behind.trans (List.drop_suffix _ s).isInfix

/-- A comparison of `n` bytes sees nothing of what a longer buffer cuts off. -/
theorem strCasePrefix_take (within : n ≤ k) : strCasePrefix (s.take k) pre n = strCasePrefix s pre n := by
  induction n generalizing s pre k with
  | zero => simp [strCasePrefix]
  | succ n ih =>
    obtain ⟨k, rfl⟩ : ∃ m, k = m + 1 := ⟨k - 1, by omega⟩
    simp only [strCasePrefix, peek_take, tail_take, ih (by omega : n ≤ k)]

theorem strCaseEq_take (within : n < k) : strCaseEq (s.take k) b n = strCaseEq s b n := by
  induction n generalizing s b k with
  | zero =>
    obtain ⟨k, rfl⟩ : ∃ m, k = m + 1 := ⟨k - 1, by omega⟩
    simp only [strCaseEq, peek_take]
  | succ n ih =>
    obtain ⟨k, rfl⟩ : ∃ m, k = m + 1 := ⟨k - 1, by omega⟩
    simp only [strCaseEq, peek_take, tail_take, ih (by omega : n < k)]

/-! ### Case -/

theorem strCasePrefix_congr (same : foldEq a b = true) : strCasePrefix a pre n = strCasePrefix b pre n := by
  induction n generalizing a b pre with
  | zero => rfl
  | succ n ih =>
    obtain ⟨first, rest⟩ := foldEq_step same
    rw [strCasePrefix, strCasePrefix, first, ih rest]

theorem strCaseEq_congr (same : foldEq a b = true) : strCaseEq a c n = strCaseEq b c n := by
  induction n generalizing a b c with
  | zero =>
    have first := (foldEq_step same).1
    have zero : peek a = 0 ↔ peek b = 0 := by
      rw [← lower_eq_zero_iff, first, lower_eq_zero_iff]
    rw [strCaseEq, strCaseEq, Bool.eq_iff_iff, beq_iff_eq, beq_iff_eq, zero]
  | succ n ih =>
    obtain ⟨first, rest⟩ := foldEq_step same
    rw [strCaseEq, strCaseEq, first, ih rest]

/-! ### Comparisons against a whole literal -/

/-- With `n` the length of `b` the loop decides equality up to ASCII case. -/
theorem strCaseEq_iff (left : 0 ∉ a) (right : 0 ∉ b) :
    strCaseEq a b b.length = true ↔ foldEq a b = true := by
  rw [foldEq_iff]
  induction b generalizing a with
  | nil => simp [strCaseEq, peek_eq_zero_iff left]
  | cons y b ih =>
    simp only [List.mem_cons, not_or] at right
    have visible : lower y ≠ 0 := fun zero => right.1 (lower_eq_zero_iff.mp zero).symm
    cases a with
    | nil => simp [strCaseEq, visible.symm]
    | cons x a =>
      simp only [List.mem_cons, not_or] at left
      simp only [strCaseEq, List.length_cons, peek_cons, List.tail_cons, List.map_cons, List.cons.injEq]
      by_cases same : lower x = lower y
      · simpa [same, visible] using ih left.2 right.2
      · simp [same]

/-- A comparison of fewer bytes asks for the front of `b`, and for no more. -/
theorem strCaseEq_front (left : 0 ∉ a) (right : 0 ∉ b) (within : n ≤ b.length) :
    strCaseEq a b n = true ↔ foldEq a (b.take n) = true := by
  have front (k : Nat) (below : n ≤ k) : strCaseEq a b n = strCaseEq a (b.take k) n := by
    clear left right within
    induction n generalizing a b k with
    | zero => rfl
    | succ n ih =>
      obtain ⟨k, rfl⟩ : ∃ m, k = m + 1 := ⟨k - 1, by omega⟩
      rw [strCaseEq, strCaseEq, peek_take, tail_take, ← ih k (by omega)]
  have sized : n = (b.take n).length := by
    rw [List.length_take]
    omega
  rw [front n le_rfl]
  nth_rewrite 2 [sized]
  exact strCaseEq_iff left fun zero => right (List.mem_of_mem_take zero)

theorem strCasePrefix_iff (visible : 0 ∉ pre) (within : n ≤ pre.length) :
    strCasePrefix s pre n = true ↔ (s.take n).map lower = (pre.take n).map lower := by
  induction n generalizing s pre with
  | zero => simp [strCasePrefix]
  | succ n ih =>
    cases pre with
    | nil => simp at within
    | cons y pre =>
      simp only [List.mem_cons, not_or] at visible
      have letter : lower y ≠ 0 := fun zero => visible.1 (lower_eq_zero_iff.mp zero).symm
      cases s with
      | nil => simp [strCasePrefix, letter.symm]
      | cons x s =>
        simp only [strCasePrefix, peek_cons, List.tail_cons, List.take_succ_cons, List.map_cons,
          List.cons.injEq]
        by_cases same : lower x = lower y
        · simpa [same, letter] using ih visible.2 (by simpa using within)
        · simp [same]

/-- A string has at most one of two prefixes that differ where both are compared. -/
theorem strCasePrefix_conflict (left : strCasePrefix s a m = true) (visible : 0 ∉ a ∧ 0 ∉ b)
    (within : m ≤ a.length ∧ n ≤ b.length)
    (differ : ((a.take m).take n).map lower ≠ ((b.take n).take m).map lower) :
    strCasePrefix s b n = false := by
  by_contra right
  rw [Bool.not_eq_false] at right
  rw [strCasePrefix_iff visible.1 within.1] at left
  rw [strCasePrefix_iff visible.2 within.2] at right
  apply differ
  rw [List.map_take, ← left, List.map_take (l := b.take n), ← right, ← List.map_take, ← List.map_take,
    List.take_take, List.take_take, Nat.min_comm]

end JaplusProxy
