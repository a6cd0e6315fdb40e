import JaplusProxy.Userinfo.CleanName

/-! What the name cleaner leaves to see. It counts a caret as text even where the caret
begins a colour code, so that a name of colour codes alone counts as visible. -/
namespace JaplusProxy.Userinfo
open CString

/-! ### Colour codes -/

def isColour (c : UInt8) : Bool := isDigit c || c == chr '#'

/-- The byte at `i` is a caret before a colour, or a colour behind a caret. -/
def InCode (s : Bytes) (i : Nat) : Prop :=
  s[i]? = some (chr '^') ∧ (s[i + 1]?).any isColour = true ∨
    (s[i]?).any isColour = true ∧ 1 ≤ i ∧ s[i - 1]? = some (chr '^')

/-- One colour code after the other. -/
def onlyCodes : Bytes → Bool
  | [] => true
  | [_] => false
  | a :: b :: rest => a == chr '^' && isColour b && onlyCodes rest

theorem colour_caret : isColour (chr '^') = false := by decide

theorem inCode_step (coded : isColour b = true) (i : Nat) : InCode (a :: b :: rest) (i + 2) ↔ InCode rest i := by
  have other : b ≠ chr '^' := fun same => by simp [same, colour_caret] at coded
  cases i with
  | zero => simp [InCode, other]
  | succ i => simp [InCode]

theorem onlyCodes_iff : onlyCodes s = true ↔ ∀ i < s.length, InCode s i := by
  induction s using onlyCodes.induct with
  | case1 => simp [onlyCodes]
  | case2 a => simp [onlyCodes, InCode]
  | case3 a b rest ih =>
    rw [onlyCodes, Bool.and_eq_true, Bool.and_eq_true, beq_iff_eq, ih]
    constructor
    · rintro ⟨⟨rfl, coded⟩, later⟩ i inside
      match i with
      | 0 => exact .inl (by simp [coded])
      | 1 => exact .inr (by simp [coded])
      | i + 2 => exact (inCode_step coded i).mpr (later i (by simpa using inside))
    · intro all
      have first : a = chr '^' ∧ isColour b = true := by simpa [InCode] using all 0 (by simp)
      refine ⟨first, fun i inside => (inCode_step first.2 i).mp (all (i + 2) ?_)⟩
      simpa using inside

theorem onlyCodes_even (coded : onlyCodes s = true) : s.length % 2 = 0 := by
  induction s using onlyCodes.induct with
  | case1 => rfl
  | case2 a => simp [onlyCodes] at coded
  | case3 a b rest ih =>
    rw [onlyCodes, Bool.and_eq_true] at coded
    have even := ih coded.2
    rw [List.length_cons, List.length_cons]
    omega

/-! ### The loop -/

/-- The bytes that the loop does not skip. -/
def stripped : Bytes → Bytes
  | [] => []
  | c :: rest => if c < 0x20 ∨ isExtendedByte c ∨ startsRun (c :: rest) then stripped rest else c :: stripped rest

theorem cleanNameLoop_written (fits : out.length ≤ 63) :
    (cleanNameLoop 512 s out colorless).1 = out ++ (stripped s).take (63 - out.length) := by
  induction s generalizing out colorless with
  | nil => simp [cleanNameLoop, stripped]
  | cons c s ih =>
    rw [cleanNameLoop, stripped]
    by_cases room : out.length < 63
    · rw [if_pos (by omega)]
      by_cases skip : c < 0x20 ∨ isExtendedByte c ∨ startsRun (c :: s)
      · rw [if_pos skip]
        split_ifs
        · exact ih fits
        · exact ih fits
        · exact ih fits
        · tauto
      · rw [if_neg skip]
        simp only [not_or] at skip
        rw [if_neg skip.1, if_neg skip.2.1, if_neg skip.2.2]
        have next : (out ++ [c]).length ≤ 63 := by
          rw [List.length_append, List.length_singleton]
          omega
        have left : 63 - out.length = (63 - (out ++ [c]).length) + 1 := by
          rw [List.length_append, List.length_singleton]
          omega
        dsimp only
        rw [ih next, left, List.take_succ_cons, List.append_assoc, List.singleton_append]
    · rw [if_neg (by omega), Nat.sub_eq_zero_of_le (by omega), List.take_zero, List.append_nil]

/-- Whatever is written first counts as text. -/
theorem cleanNameLoop_counted (counted : out ≠ [] → colorless ≠ 0)
    (written : (cleanNameLoop outlen s out colorless).1 ≠ []) : (cleanNameLoop outlen s out colorless).2 ≠ 0 := by
  induction s generalizing out colorless with
  | nil => exact counted written
  | cons c s ih =>
    rw [cleanNameLoop] at written ⊢
    split at written
    · rename_i room
      rw [if_pos room]
      split_ifs at written ⊢
      · exact ih counted written
      · exact ih counted written
      · exact ih counted written
      · refine ih (fun _ => ?_) written
        split
        · rename_i color
          exact counted fun empty => by simp [empty] at color
        · exact Nat.succ_ne_zero _
    · rename_i full
      rw [if_neg full]
      exact counted written

/-- Less the blanks and asterisks in front, and whatever the loop skips. -/
def survivors (s : Bytes) : Bytes := stripped (s.dropWhile fun c => c == chr ' ' || c == chr '*')

/-- What the buffer takes of them, before the fallback. -/
def leftover (s : Bytes) : Bytes := (survivors s).take 63

theorem cleanName_eq (s : Bytes) : cleanName s 512 = if leftover s = [] then lit "Padawan" else leftover s := by
  have written : (cleanNameLoop 512 (s.dropWhile fun c => c == chr ' ' || c == chr '*') [] 0).1 = leftover s :=
    cleanNameLoop_written (by decide)
  have counted : leftover s ≠ [] →
      (cleanNameLoop 512 (s.dropWhile fun c => c == chr ' ' || c == chr '*') [] 0).2 ≠ 0 := by
    rw [← written]
    exact cleanNameLoop_counted (by simp)
  have short : (leftover s).length ≤ 63 := List.length_take_le ..
  rw [cleanName]
  dsimp only
  rw [written]
  by_cases empty : leftover s = []
  · rw [if_pos (.inl (by rw [empty, List.length_nil])), if_pos empty]
    decide
  · rw [if_neg, if_neg empty, List.take_of_length_le (by omega)]
    rintro (none | uncounted)
    · exact empty (List.length_eq_zero_iff.mp none)
    · exact counted empty uncounted

/-! ### Visible names -/

/-- Some byte is no part of a colour code. -/
def Visible (s : Bytes) : Prop := ∃ i < s.length, ¬ InCode s i

/-- A cleaned name. -/
structure CleansName (s : Bytes) : Prop where
  length : 1 ≤ (cleanName s 512).length ∧ (cleanName s 512).length ≤ 63
  bytes : ∀ c ∈ cleanName s 512, ¬ c < 0x20 ∧ isExtendedByte c = false
  visible : Visible (cleanName s 512)
  replaced : ¬ Visible (leftover s) → cleanName s 512 = lit "Padawan"

theorem visible_iff : Visible s ↔ onlyCodes s = false := by
  simp only [Visible, ← Bool.not_eq_true, onlyCodes_iff, not_forall, exists_prop]

/-- The buffer has an odd number of bytes, so that no cut leaves codes alone. -/
theorem onlyCodes_leftover : onlyCodes (leftover s) = true ∧ leftover s ≠ [] ↔
    onlyCodes (survivors s) = true ∧ 1 ≤ (survivors s).length ∧ (survivors s).length ≤ 62 := by
  rw [leftover]
  by_cases short : (survivors s).length ≤ 62
  · rw [List.take_of_length_le (by omega), Nat.one_le_iff_ne_zero, ne_eq, ne_eq, List.length_eq_zero_iff]
    simp [short]
  · have long : ((survivors s).take 63).length = 63 := by
      rw [List.length_take]
      omega
    refine ⟨fun ⟨coded, _⟩ => ?_, fun ⟨_, _, fits⟩ => absurd fits short⟩
    have even := onlyCodes_even coded
    omega

theorem cleanName_bytes (member : c ∈ cleanName s outlen) : ¬ c < 0x20 ∧ isExtendedByte c = false := by
  rcases cleanName_mem member with padawan | kept
  · exact (by decide +kernel : ∀ c ∈ lit "Padawan", ¬ c < 0x20 ∧ isExtendedByte c = false) c padawan
  · exact kept.2

/-- The cleaner leaves a visible name, unless one to thirty-one colour codes are all that
survives of the name. -/
theorem cleanName_visible_iff (s : CStr) : CleansName s.bytes ↔
    ¬ (onlyCodes (survivors s.bytes) = true ∧ 1 ≤ (survivors s.bytes).length ∧ (survivors s.bytes).length ≤ 62) := by
  rw [← onlyCodes_leftover]
  have name := cleanName_eq s.bytes
  constructor
  · rintro cleans ⟨coded, filled⟩
    have visible := cleans.visible
    rw [name, if_neg filled, visible_iff, coded] at visible
    contradiction
  · intro condition
    have seen : leftover s.bytes ≠ [] → Visible (leftover s.bytes) := by
      intro filled
      rw [visible_iff, ← Bool.not_eq_true]
      exact fun coded => condition ⟨coded, filled⟩
    refine ⟨⟨?_, cleanName_length_le ..⟩, fun c => cleanName_bytes, ?_, fun invisible => ?_⟩
    · exact List.length_pos_iff.mpr (cleanName_ne_nil (by decide))
    · rw [name]
      split
      · exact visible_iff.mpr (by decide)
      · exact seen ‹_›
    · rw [name, if_pos]
      by_contra filled
      exact invisible (seen filled)

/-- A lone colour code is kept as a name. -/
theorem cleanName_invisible : cleanName (lit "^1") 512 = lit "^1" ∧ ¬ CleansName (lit "^1") := by
  have same : cleanName (lit "^1") 512 = lit "^1" := by decide
  refine ⟨same, fun cleans => ?_⟩
  have visible := cleans.visible
  rw [same, visible_iff] at visible
  exact absurd visible (by decide)

end JaplusProxy.Userinfo
