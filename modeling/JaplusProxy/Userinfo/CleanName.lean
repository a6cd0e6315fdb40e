import JaplusProxy.Predicates

/-! The name cleaner of proxy.c. -/
namespace JaplusProxy.Userinfo
open CString

/-- Extended bytes that break renderers and listings. -/
def isExtendedByte (c : UInt8) : Bool :=
  c == 0x81 || c == 0x8D || c == 0x8F || c == 0x90 || c == 0x9D || c == 0xA0 || c == 0xAD

/-- Three blanks or three `@` starting here. -/
def startsRun : Bytes → Bool
  | a :: b :: c :: _ =>
    (a == chr ' ' && b == chr ' ' && c == chr ' ') || (a == chr '@' && b == chr '@' && c == chr '@')
  | _ => false

/-- The loop over `in`, with the bytes written so far and the count of colorless ones. -/
def cleanNameLoop (outlen : Nat) : Bytes → Bytes → Nat → Bytes × Nat
  | [], out, colorless => (out, colorless)
  | c :: rest, out, colorless =>
    if out.length + 1 < outlen ∧ out.length + 1 < 64 then
      if c < 0x20 then cleanNameLoop outlen rest out colorless
      else if isExtendedByte c then cleanNameLoop outlen rest out colorless
      else if startsRun (c :: rest) then cleanNameLoop outlen rest out colorless
      else
        -- the byte after a caret is a color, the caret itself counts as text
        let color := out.getLast? = some (chr '^') ∧ (isDigit c ∨ c = chr '#')
        cleanNameLoop outlen rest (out ++ [c]) (if color then colorless else colorless + 1)
    else (out, colorless)

def cleanName (s : Bytes) (outlen : Nat) : Bytes :=
  let (out, colorless) := cleanNameLoop outlen (s.dropWhile fun c => c == chr ' ' || c == chr '*') [] 0
  let out := if out.length = 0 ∨ colorless = 0 then (lit "Padawan").take (outlen - 1) else out
  out.take (outlen - 1)

theorem cleanNameLoop_length (short : out.length ≤ 63) :
    (cleanNameLoop outlen s out colorless).1.length ≤ 63 := by
  induction s generalizing out colorless with
  | nil => exact short
  | cons c s ih =>
    unfold cleanNameLoop
    split
    · have next : (out ++ [c]).length ≤ 63 := by
        simp only [List.length_append, List.length_singleton]
        omega
      split_ifs
      · exact ih short
      · exact ih short
      · exact ih short
      · exact ih next
    · exact short

/-- Every byte written comes from the input and is visible. -/
theorem cleanNameLoop_mem (member : c ∈ (cleanNameLoop outlen s out colorless).1) :
    c ∈ out ∨ (c ∈ s ∧ ¬ c < 0x20 ∧ isExtendedByte c = false) := by
  induction s generalizing out colorless with
  | nil => exact .inl member
  | cons b s ih =>
    have skip (rest : c ∈ (cleanNameLoop outlen s out colorless).1) :
        c ∈ out ∨ (c ∈ b :: s ∧ ¬ c < 0x20 ∧ isExtendedByte c = false) :=
      (ih rest).imp_right fun kept => ⟨List.mem_cons_of_mem _ kept.1, kept.2⟩
    have keep {k : Nat} (visible : ¬ b < 0x20) (plain : isExtendedByte b = false)
        (rest : c ∈ (cleanNameLoop outlen s (out ++ [b]) k).1) :
        c ∈ out ∨ (c ∈ b :: s ∧ ¬ c < 0x20 ∧ isExtendedByte c = false) := by
      rcases ih rest with written | kept
      · rcases List.mem_append.mp written with before | new
        · exact .inl before
        · obtain rfl := List.mem_singleton.mp new
          exact .inr ⟨List.mem_cons_self, visible, plain⟩
      · exact .inr ⟨List.mem_cons_of_mem _ kept.1, kept.2⟩
    unfold cleanNameLoop at member
    split at member
    · split_ifs at member with control extended run
      · exact skip member
      · exact skip member
      · exact skip member
      · exact keep control (by simpa using extended) member
    · exact .inl member

theorem cleanName_mem (member : c ∈ cleanName s outlen) :
    c ∈ lit "Padawan" ∨ (c ∈ s ∧ ¬ c < 0x20 ∧ isExtendedByte c = false) := by
  simp only [cleanName] at member
  have written := List.mem_of_mem_take member
  split at written
  · exact .inl (List.mem_of_mem_take written)
  · rcases cleanNameLoop_mem written with empty | kept
    · simp at empty
    · exact .inr ⟨(List.dropWhile_sublist _).subset kept.1, kept.2⟩

theorem cleanName_length_le (s : Bytes) (outlen : Nat) : (cleanName s outlen).length ≤ 63 := by
  have padawan : ((lit "Padawan").take (outlen - 1)).length ≤ 63 :=
    (List.length_take_le' _ _).trans (by decide)
  simp only [cleanName]
  apply (List.length_take_le' _ _).trans
  split
  · exact padawan
  · exact cleanNameLoop_length (by simp)

theorem cleanName_ne_nil (room : 1 < outlen) : cleanName s outlen ≠ [] := by
  have padawan : (lit "Padawan").take (outlen - 1) ≠ [] := by
    simp only [ne_eq, List.take_eq_nil_iff, not_or]
    exact ⟨by omega, by decide⟩
  simp only [cleanName, ne_eq, List.take_eq_nil_iff, not_or]
  refine ⟨by omega, ?_⟩
  split
  · exact padawan
  · rename_i written
    simp only [not_or] at written
    exact fun empty => written.1 (List.length_eq_zero_iff.mpr empty)

theorem cleanName_nulFree : 0 ∉ cleanName s outlen := by
  intro member
  rcases cleanName_mem member with padawan | ⟨_, visible, _⟩
  · exact absurd padawan (by decide)
  · exact visible (by decide)

theorem cleanName_plain (plain : chr '\\' ∉ s) : chr '\\' ∉ cleanName s outlen := by
  intro member
  rcases cleanName_mem member with padawan | ⟨kept, _, _⟩
  · exact absurd padawan (by decide)
  · exact plain kept

end JaplusProxy.Userinfo
