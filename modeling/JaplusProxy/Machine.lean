/-! Machines that take one action at a time, where the state enables it. What holds
along their runs is proved from one step. -/
namespace Machine

variable {σ α : Type}

/-- One action after the other. -/
def run (step : σ → α → Option σ) (s : σ) : List α → Option σ
  | [] => some s
  | a :: actions => (step s a).bind fun t => run step t actions

/-- A run from one state to another, all of whose steps meet `ok` where they start. -/
inductive Reaches (step : σ → α → Option σ) (ok : σ → α → Prop) : σ → σ → Prop where
  | refl : Reaches step ok s s
  | next : ok s a → step s a = some t → Reaches step ok t u → Reaches step ok s u

/-- Any run. -/
abbrev Reachable (step : σ → α → Option σ) : σ → σ → Prop := Reaches step fun _ _ => True

variable {step : σ → α → Option σ} {ok : σ → α → Prop}

namespace Reaches

theorem trans (first : Reaches step ok s t) (second : Reaches step ok t u) : Reaches step ok s u := by
  induction first with
  | refl => exact second
  | next met taken _ ih => exact .next met taken (ih second)

/-- What the steps preserve holds in every state reached. -/
theorem invariant {inv : σ → Prop} (keeps : ∀ s a t, inv s → ok s a → step s a = some t → inv t)
    (reaches : Reaches step ok s t) (initial : inv s) : inv t := by
  induction reaches with
  | refl => exact initial
  | next met taken _ ih => exact ih (keeps _ _ _ initial met taken)

end Reaches

theorem reachable_of_run (ran : run step s actions = some t) : Reachable step s t := by
  induction actions generalizing s with
  | nil =>
    cases ran
    exact .refl
  | cons a actions ih =>
    obtain ⟨next, taken, rest⟩ := Option.bind_eq_some_iff.mp ran
    exact .next trivial taken (ih rest)

/-! ### Runs by their actions -/

/-- It holds in every state that the actions lead through. -/
def Always (step : σ → α → Option σ) (good : σ → Prop) (s : σ) : List α → Prop
  | [] => good s
  | a :: actions => good s ∧ ∀ t, step s a = some t → Always step good t actions

/-- Every action meets the condition where it is taken. -/
def Each (step : σ → α → Option σ) (ok : σ → α → Prop) (s : σ) : List α → Prop
  | [] => True
  | a :: actions => ok s a ∧ ∀ t, step s a = some t → Each step ok t actions

theorem Always.here (always : Always step good s actions) : good s := by
  cases actions with
  | nil => exact always
  | cons a actions => exact always.1

theorem Each.next (met : ok s a) (taken : step s a = some t) (rest : Each step ok t actions) :
    Each step ok s (a :: actions) := by
  refine ⟨met, fun u other => ?_⟩
  cases taken.symm.trans other
  exact rest

/-- Where a step from a good state leads to a good state exactly when it meets the
condition, a run keeps to good states exactly when all its steps meet it. -/
theorem always_iff_each {inv good : σ → Prop} (keeps : ∀ s a t, inv s → step s a = some t → inv t)
    (exact : ∀ s a t, inv s → good s → step s a = some t → (good t ↔ ok s a))
    (ran : run step s actions = some t) (initial : inv s) (start : good s) :
    Always step good s actions ↔ Each step ok s actions := by
  induction actions generalizing s with
  | nil => exact ⟨fun _ => trivial, fun _ => start⟩
  | cons a actions ih =>
    obtain ⟨u, taken, rest⟩ := Option.bind_eq_some_iff.mp ran
    have kept := keeps s a u initial taken
    have one := exact s a u initial start taken
    constructor
    · rintro ⟨_, later⟩
      have next := later u taken
      refine ⟨one.mp next.here, fun v other => ?_⟩
      cases taken.symm.trans other
      exact (ih rest kept next.here).mp next
    · rintro ⟨met, later⟩
      refine ⟨start, fun v other => ?_⟩
      cases taken.symm.trans other
      exact (ih rest kept (one.mpr met)).mpr (later u taken)

end Machine
