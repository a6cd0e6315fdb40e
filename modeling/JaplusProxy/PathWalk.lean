import Mathlib.Data.List.Infix

/-! Paths as components between separators, and the walk over them from a directory: an
empty component and `here` stay, `parent` climbs, any other name goes down. -/
namespace PathWalk

variable {α : Type} [DecidableEq α]

/-! ### Components -/

/-- Where a component without separators stands in its path. -/
theorem mem_splitOn_iff {sep : α} {w s : List α} (fresh : sep ∉ w) : w ∈ s.splitOn sep ↔
    s = w ∨ w ++ [sep] <+: s ∨ sep :: w <:+ s ∨ sep :: w ++ [sep] <:+: s := by
  constructor
  · intro member
    induction size : s.length using Nat.strong_induction_on generalizing s with
    | _ n ih =>
      by_cases found : sep ∈ s
      · obtain ⟨front, rest, rfl, first⟩ := List.eq_append_cons_of_mem found
        rw [List.splitOn_append_cons_self_of_not_mem first] at member
        rcases List.mem_cons.mp member with rfl | later
        · exact .inr (.inl ⟨rest, by simp⟩)
        · have shorter : rest.length < n := by
            rw [← size, List.length_append, List.length_cons]
            omega
          rcases ih _ shorter later rfl with rfl | ⟨r, rfl⟩ | last | inside
          · exact .inr (.inr (.inl ⟨front, rfl⟩))
          · exact .inr (.inr (.inr ⟨front, r, by simp⟩))
          · exact .inr (.inr (.inl (last.trans ⟨front ++ [sep], by simp⟩)))
          · exact .inr (.inr (.inr (inside.trans ⟨front ++ [sep], [], by simp⟩)))
      · rw [List.splitOn_eq_singleton found] at member
        exact .inl (List.mem_singleton.mp member).symm
  · have whole : w.splitOn sep = [w] := List.splitOn_eq_singleton fresh
    rintro (rfl | ⟨r, rfl⟩ | ⟨t, rfl⟩ | ⟨t, r, rfl⟩)
    · simp [whole]
    · rw [List.append_assoc, List.singleton_append, List.splitOn_append_cons_self_of_not_mem fresh]
      exact .head _
    · rw [List.splitOn_append_cons_self, whole]
      simp
    · rw [List.append_assoc, List.cons_append, List.cons_append, List.append_assoc, List.singleton_append,
        List.splitOn_append_cons_self, List.splitOn_append_cons_self_of_not_mem fresh]
      simp

/-! ### The walk -/

/-- How deep a walk ends that starts at a depth, or `none` where it climbs past the top. -/
def walk (parent here : List α) : Nat → List (List α) → Option Nat
  | depth, [] => some depth
  | depth, c :: cs =>
    if c = parent then if depth = 0 then none else walk parent here (depth - 1) cs
    else if c = here ∨ c = [] then walk parent here depth cs
    else walk parent here (depth + 1) cs

/-- Without a parent among its components a walk never climbs. -/
theorem walk_descends {parent : List α} (here : List α) (depth : Nat) (absent : parent ∉ cs) :
    ∃ bottom, walk parent here depth cs = some bottom ∧ depth ≤ bottom := by
  induction cs generalizing depth with
  | nil => exact ⟨depth, rfl, le_rfl⟩
  | cons c cs ih =>
    simp only [List.mem_cons, not_or] at absent
    rw [walk, if_neg (Ne.symm absent.1)]
    split
    · exact ih depth absent.2
    · obtain ⟨bottom, walked, deeper⟩ := ih (depth + 1) absent.2
      exact ⟨bottom, walked, by omega⟩

end PathWalk
