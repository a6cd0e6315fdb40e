import Mathlib.Data.List.Infix

/-! Python strings as the characters they hold: `in`, and `replace` by a left-to-right
scan for matches that do not overlap. -/
namespace PyString

abbrev Str := List Char

def str (s : String) : Str := s.toList

-- under one name, however much is imported
instance lawful : LawfulBEq Str := inferInstanceAs (LawfulBEq (List Char))

/-- `<=`, by code points. -/
def le : Str → Str → Bool
  | [], _ => true
  | _ :: _, [] => false
  | c :: s, d :: t => c.toNat < d.toNat || c.toNat == d.toNat && le s t

/-- The characters left, of which the first `skip` belong to a match already replaced. -/
def replaceFrom (old new : Str) : Nat → Str → Str
  | _, [] => []
  | skip + 1, _ :: s => replaceFrom old new skip s
  | 0, c :: s =>
    if old <+: c :: s then new ++ replaceFrom old new (old.length - 1) s else c :: replaceFrom old new 0 s

/-- `s.replace(old, new)`, for an `old` that is not empty. -/
def replace (s old new : Str) : Str := replaceFrom old new 0 s

@[simp] theorem replaceFrom_nil (old new : Str) (skip : Nat) : replaceFrom old new skip [] = [] := by
  cases skip <;> rfl

theorem replaceFrom_drop (old new s : Str) (skip : Nat) :
    replaceFrom old new skip s = replaceFrom old new 0 (s.drop skip) := by
  induction skip generalizing s with
  | zero => rfl
  | succ skip ih =>
    cases s with
    | nil => simp
    | cons c s => exact ih s

/-- Nothing to replace. -/
theorem replace_absent (absent : ¬ old <:+: s) : replace s old new = s := by
  induction s with
  | nil => rfl
  | cons c s ih =>
    rw [List.infix_cons_iff, not_or] at absent
    rw [replace, replaceFrom, if_neg absent.1]
    exact congrArg _ (ih absent.2)

/-- A match at the front goes first. -/
theorem replace_append (nonempty : old ≠ []) (s new : Str) : replace (old ++ s) old new = new ++ replace s old new := by
  cases old with
  | nil => contradiction
  | cons c old =>
    have front : c :: old <+: c :: (old ++ s) := ⟨s, rfl⟩
    rw [replace, List.cons_append, replaceFrom, if_pos front, replaceFrom_drop]
    simp [replace]

/-- Deleting never adds. -/
theorem replace_nil_length (s old : Str) (skip : Nat) : (replaceFrom old [] skip s).length ≤ s.length := by
  induction s generalizing skip with
  | nil => simp
  | cons c s ih =>
    cases skip with
    | succ skip => exact (ih skip).trans (Nat.le_succ _)
    | zero =>
      rw [replaceFrom]
      split
      · exact (ih _).trans (Nat.le_succ _)
      · exact Nat.succ_le_succ (ih 0)

/-- Deleting an occurrence shortens. -/
theorem replace_nil_shorter (present : old <:+: s) (nonempty : old ≠ []) : (replace s old []).length < s.length := by
  induction s with
  | nil => exact absurd (List.infix_nil.mp present) nonempty
  | cons c s ih =>
    rw [replace, replaceFrom]
    split
    · exact Nat.lt_succ_of_le (replace_nil_length s old _)
    · rename_i elsewhere
      exact Nat.succ_lt_succ (ih ((List.infix_cons_iff.mp present).resolve_left elsewhere))

/-- A character that the pattern does not have cuts the text in two. -/
theorem infix_cut (apart : c ∉ old) : old <:+: left ++ c :: right ↔ old <:+: left ∨ old <:+: right := by
  constructor
  · intro present
    rcases List.infix_append_iff.mp present with inside | inside | ⟨front, back, rfl, _, head⟩
    · exact .inl inside
    · rcases List.infix_cons_iff.mp inside with head | inside
      · cases old with
        | nil => exact .inl (List.nil_infix ..)
        | cons d old =>
          obtain ⟨rfl, _⟩ := List.cons_prefix_cons.mp head
          simp at apart
      · exact .inr inside
    · cases back with
      | nil =>
        rename_i suffix
        rw [List.append_nil]
        exact .inl suffix.isInfix
      | cons d back =>
        obtain ⟨rfl, _⟩ := List.cons_prefix_cons.mp head
        simp at apart
  · rintro (inside | inside)
    · exact List.infix_append_of_infix_left inside
    · exact List.infix_append_of_infix_right (List.infix_cons inside)

end PyString
