import Mathlib.Data.List.Basic
import Mathlib.Data.List.Infix
import Mathlib.Data.List.TakeWhile

/-! C strings as the bytes before the terminating NUL. A `char *` into a string
is the suffix it points at, so that reading at the end gives the terminator.
Comparisons with ASCII ranges agree for signed and unsigned `char`: a byte from
0x80 on lies outside every such range under either reading. -/
namespace CString

abbrev Bytes := List UInt8

/-- A byte sequence that a C string can hold. -/
structure CStr where
  bytes : Bytes
  nulFree : 0 ∉ bytes
  deriving DecidableEq

instance (priority := low) decidableForallByte (p : UInt8 → Prop) [DecidablePred p] : Decidable (∀ c, p c) :=
  decidable_of_iff (∀ n : Fin 256, p (UInt8.ofFin n))
    ⟨fun all c => by simpa using all c.toFin, fun all n => all _⟩

def chr (c : Char) : UInt8 := UInt8.ofNat c.toNat

def lit (s : String) : Bytes := s.toList.map chr

/-- `*s` -/
def peek : Bytes → UInt8
  | [] => 0
  | c :: _ => c

@[simp] theorem peek_nil : peek [] = 0 := rfl
@[simp] theorem peek_cons : peek (c :: s) = c := rfl

/-- What a callee finds that reads a buffer as a string. -/
def CStr.ofBytes (buffer : Bytes) : CStr where
  bytes := buffer.takeWhile (· ≠ 0)
  nulFree := by
    intro member
    have := List.mem_takeWhile_imp member
    simp at this

theorem CStr.bytes_ofBytes (nulFree : 0 ∉ s) : (CStr.ofBytes s).bytes = s := by
  apply List.takeWhile_eq_self_iff.mpr
  intro c member
  simpa using fun (zero : c = 0) => nulFree (zero ▸ member)

/-- The NUL at the write index ends the string. -/
theorem CStr.bytes_ofBytes_append (nulFree : 0 ∉ s) : (CStr.ofBytes (s ++ 0 :: rest)).bytes = s := by
  change (s ++ 0 :: rest).takeWhile (fun c => decide (c ≠ 0)) = s
  rw [List.takeWhile_append_of_pos]
  · simp
  · intro c member
    simpa using fun (zero : c = 0) => nulFree (zero ▸ member)

/-- `*s` tests for the empty string. -/
theorem peek_eq_zero_iff (nulFree : 0 ∉ s) : peek s = 0 ↔ s = [] := by
  cases s with
  | nil => simp
  | cons c s => simpa using fun (zero : c = 0) => nulFree (by simp [zero])

/-! ### Search -/

def strchr (c : UInt8) : Bytes → Option Bytes
  | [] => none
  | b :: s => if b = c then some (b :: s) else strchr c s

theorem strchr_eq_none_iff : strchr c s = none ↔ c ∉ s := by
  induction s with
  | nil => simp [strchr]
  | cons b s ih =>
    by_cases same : b = c
    · simp [strchr, same]
    · simp [strchr, same, ih, Ne.symm same]

/-- Up to the first occurrence, and from it on. -/
theorem strchr_some (found : strchr c s = some r) :
    ∃ before rest, s = before ++ c :: rest ∧ r = c :: rest ∧ c ∉ before := by
  induction s with
  | nil => simp [strchr] at found
  | cons b s ih =>
    by_cases same : b = c
    · simp only [strchr, if_pos same, Option.some.injEq] at found
      exact ⟨[], s, by simp [same], by simp [← found, same], by simp⟩
    · simp only [strchr, if_neg same] at found
      obtain ⟨before, rest, rfl, rfl, fresh⟩ := ih found
      exact ⟨b :: before, rest, rfl, rfl, by simp [fresh, Ne.symm same]⟩

def strstr (needle : Bytes) : Bytes → Bool
  | [] => needle.isPrefixOf []
  | c :: s => needle.isPrefixOf (c :: s) || strstr needle s

theorem strstr_iff : strstr needle s = true ↔ needle <:+: s := by
  induction s with
  | nil => simp [strstr]
  | cons c s ih => simp [strstr, ih, List.infix_cons_iff]

/-! ### ASCII case -/

/-- `if (a >= 'A' && a <= 'Z') a += 32;` -/
def lower (c : UInt8) : UInt8 :=
  if chr 'A' ≤ c ∧ c ≤ chr 'Z' then c + 32 else c

@[simp] theorem lower_zero : lower 0 = 0 := by decide

theorem lower_eq_zero_iff : lower c = 0 ↔ c = 0 :=
  (by decide +kernel : ∀ c, lower c = 0 ↔ c = 0) c

/-- Equal length, and equal bytes ignoring ASCII case. -/
def foldEq (a b : Bytes) : Bool := a.length == b.length && (a.zip b).all fun (x, y) => lower x == lower y

theorem foldEq_iff : foldEq a b = true ↔ a.map lower = b.map lower := by
  induction a generalizing b with
  | nil => cases b <;> simp [foldEq]
  | cons x a ih =>
    cases b with
    | nil => simp [foldEq]
    | cons y b =>
      have := ih (b := b)
      simp only [foldEq, Bool.and_eq_true, beq_iff_eq] at this
      simp only [foldEq, List.length_cons, List.zip_cons_cons, List.all_cons, List.map_cons,
        List.cons.injEq, Bool.and_eq_true, beq_iff_eq, Nat.add_right_cancel_iff, ← this]
      exact and_left_comm

@[simp] theorem foldEq_self : foldEq a a = true := foldEq_iff.mpr rfl

theorem foldEq_comm : foldEq a b = foldEq b a := by
  rw [Bool.eq_iff_iff, foldEq_iff, foldEq_iff, eq_comm]

theorem foldEq_trans (first : foldEq a b = true) (second : foldEq b c = true) : foldEq a c = true :=
  foldEq_iff.mpr ((foldEq_iff.mp first).trans (foldEq_iff.mp second))

/-- What equals one of two different strings is not the other. -/
theorem foldEq_apart (same : foldEq x a = true) (differ : foldEq a b = false) : foldEq x b = false := by
  by_contra both
  rw [Bool.not_eq_false] at both
  simp [foldEq_trans (foldEq_comm ▸ same) both] at differ

/-- Strings equal up to case go on with equal bytes up to case. -/
theorem foldEq_step (same : foldEq a b = true) : lower (peek a) = lower (peek b) ∧ foldEq a.tail b.tail = true := by
  rw [foldEq_iff] at same ⊢
  cases a with
  | nil => cases b <;> simp_all
  | cons x a => cases b <;> simp_all

/-! ### Decimal numbers -/

def isSpace (c : UInt8) : Bool := c == 32 || (9 ≤ c && c ≤ 13)

def isDigit (c : UInt8) : Bool := chr '0' ≤ c && c ≤ chr '9'

def decimal (s : Bytes) : Int :=
  (s.takeWhile isDigit).foldl (fun value c => 10 * value + (c.toNat - 48)) 0

/-- `strtol(s, NULL, 10)` where `long` has 32 bits: blanks, a sign, digits, and
saturation at the ends of the range. -/
def strtol (s : Bytes) : Int :=
  match s.dropWhile isSpace with
  | [] => 0
  | c :: rest =>
    let value := if c = chr '-' then - decimal rest
      else if c = chr '+' then decimal rest
      else decimal (c :: rest)
    max (-2147483648) (min 2147483647 value)

/-- The bytes that strtol reads. -/
def numeral (s : Bytes) : Bytes :=
  s.takeWhile isSpace ++
    match s.dropWhile isSpace with
    | [] => []
    | c :: rest => if c = chr '-' ∨ c = chr '+' then c :: rest.takeWhile isDigit else (c :: rest).takeWhile isDigit

theorem strtol_space (blank : isSpace c = true) : strtol (c :: s) = strtol s := by
  simp [strtol, blank]

theorem strtol_text (text : isSpace c = false) :
    strtol (c :: s) = max (-2147483648) (min 2147483647
      (if c = chr '-' then - decimal s else if c = chr '+' then decimal s else decimal (c :: s))) := by
  simp [strtol, text]

theorem takeWhile_take (s : Bytes) (k : Nat) :
    (s.take k).takeWhile isDigit = (s.takeWhile isDigit).take k := by
  induction s generalizing k with
  | nil => simp
  | cons c s ih =>
    cases k with
    | zero => simp
    | succ k => cases digit : isDigit c <;> simp [digit, ih]

theorem isDigit_value : ∀ c, isDigit c = true → 48 ≤ c.toNat := by decide +kernel

/-- One more digit only adds to the number read so far. -/
theorem le_foldl_digits (s : Bytes) (digits : ∀ c ∈ s, isDigit c = true) (value : Int)
    (positive : 0 ≤ value) : value ≤ s.foldl (fun (value : Int) (c : UInt8) => 10 * value + (c.toNat - 48)) value := by
  induction s generalizing value with
  | nil => simp
  | cons c s ih =>
    have digit := isDigit_value c (digits c (by simp))
    have rest := ih (fun c member => digits c (List.mem_cons_of_mem _ member))
      (10 * value + (c.toNat - 48)) (by omega)
    rw [List.foldl_cons]
    omega

theorem decimal_take (s : Bytes) (k : Nat) : 0 ≤ decimal (s.take k) ∧ decimal (s.take k) ≤ decimal s := by
  have digits (c : UInt8) (member : c ∈ s.takeWhile isDigit) : isDigit c = true := List.mem_takeWhile_imp member
  have short := le_foldl_digits ((s.takeWhile isDigit).take k)
    (fun c member => digits c (List.mem_of_mem_take member)) 0 (by omega)
  have whole := le_foldl_digits ((s.takeWhile isDigit).drop k)
    (fun c member => digits c (List.mem_of_mem_drop member)) _ short
  rw [← List.foldl_append, List.take_append_drop] at whole
  rw [decimal, decimal, takeWhile_take]
  exact ⟨short, whole⟩

/-- A cut text reads as a number on the same side of zero and no further from it. -/
theorem strtol_take (s : Bytes) (k : Nat) :
    0 ≤ strtol (s.take k) ∧ strtol (s.take k) ≤ strtol s ∨
      strtol s ≤ strtol (s.take k) ∧ strtol (s.take k) ≤ 0 := by
  induction s generalizing k with
  | nil => simp [strtol]
  | cons c s ih =>
    cases k with
    | zero =>
      have none : strtol ((c :: s).take 0) = 0 := rfl
      omega
    | succ k =>
      rw [List.take_succ_cons]
      cases blank : isSpace c with
      | true =>
        rw [strtol_space blank, strtol_space blank]
        exact ih k
      | false =>
        have rest := decimal_take s k
        have all := decimal_take (c :: s) (k + 1)
        rw [List.take_succ_cons] at all
        rw [strtol_text blank, strtol_text blank]
        split
        · omega
        · split <;> omega

theorem decimal_take_eq (short : (s.takeWhile isDigit).length ≤ k) : decimal (s.take k) = decimal s := by
  rw [decimal, decimal, takeWhile_take, List.take_of_length_le short]

/-- A cut behind its number does not change it. -/
theorem strtol_take_eq (short : (numeral s).length ≤ k) : strtol (s.take k) = strtol s := by
  induction s generalizing k with
  | nil => simp
  | cons c s ih =>
    cases blank : isSpace c with
    | true =>
      have longer : (numeral (c :: s)).length = (numeral s).length + 1 := by simp [numeral, blank]
      obtain ⟨k, rfl⟩ := Nat.exists_eq_add_of_le' (Nat.le_of_add_left_le (longer ▸ short))
      rw [List.take_succ_cons, strtol_space blank, strtol_space blank]
      exact ih (by omega)
    | false =>
      have text : numeral (c :: s) =
          if c = chr '-' ∨ c = chr '+' then c :: s.takeWhile isDigit else (c :: s).takeWhile isDigit := by
        simp [numeral, blank]
      rw [text] at short
      split at short
      · rename_i sign
        obtain ⟨k, rfl⟩ := Nat.exists_eq_add_of_le' (Nat.le_of_add_left_le short)
        have digits := decimal_take_eq (Nat.le_of_succ_le_succ short)
        rw [List.take_succ_cons, strtol_text blank, strtol_text blank, digits]
        rcases sign with rfl | rfl <;> rfl
      · rename_i unsigned
        rw [not_or] at unsigned
        have digits := decimal_take_eq short
        rw [strtol_text blank, if_neg unsigned.1, if_neg unsigned.2, ← digits]
        cases k with
        | zero => rfl
        | succ k => rw [List.take_succ_cons, strtol_text blank, if_neg unsigned.1, if_neg unsigned.2]

end CString
