import JaplusProxy.Manager.Deploy
import Mathlib.Data.List.Basic

/-! The original lib over any runs, cut off anywhere. It leaves its name by one rename,
which gives it the other; only then is anything written, and never to that name. -/
namespace JaplusProxy.Manager
open Machine

/-- The original has its second name, or still its first. -/
def Kept (original : Content) (dir : LibDir) : Prop :=
  dir.real = some original ∨ dir.real = none ∧ dir.stock = some original

def Intact (original : Content) (dir : LibDir) : Prop := dir.real = some original ∨ dir.stock = some original

/-- What a completed run leaves. -/
structure Completes (original wrapper : Content) (dir : LibDir) : Prop where
  preserved : (dir.completed wrapper).real = some original
  deployed : wrapper ≠ [] ∨ dir.stock ≠ none → (dir.completed wrapper).stock = some wrapper
  /-- The same run once more. -/
  again : (ensureProxy true wrapper (dir.completed wrapper)).moments = []

section
variable {original wrapper : Content} {dir : LibDir}

theorem mem_writeWrapper (member : moment ∈ dir.writeWrapper wrapper) : moment.real = dir.real := by
  obtain ⟨n, _, rfl⟩ := List.mem_map.mp member
  rfl

theorem writeWrapper_last (dir last : LibDir) (wrapper : Content) :
    (dir.writeWrapper wrapper).getLastD last = { dir with stock := some wrapper } := by
  simp [LibDir.writeWrapper, List.range_succ]

/-- The first run moves the original away, then writes. -/
theorem ensureProxy_first (other : wrapper ≠ original) :
    (ensureProxy true wrapper ⟨some original, none⟩).moments =
      ⟨none, some original⟩ :: LibDir.writeWrapper ⟨none, some original⟩ wrapper := by
  simp [ensureProxy, LibDir.preserve, Ne.symm other]

/-- Any other run writes, or does nothing. -/
theorem ensureProxy_later (moved : dir.real = some original) :
    (ensureProxy true wrapper dir).moments =
      if dir.stock.getD [] = wrapper then [] else dir.writeWrapper wrapper := by
  simp only [ensureProxy, moved]
  split <;> simp_all

theorem Kept.moments (kept : Kept original dir) (other : wrapper ≠ original) :
    ∀ moment ∈ (ensureProxy true wrapper dir).moments, moment.real = some original := by
  intro moment member
  obtain ⟨stock, real⟩ := dir
  rcases kept with moved | ⟨unmoved, first⟩
  · rw [ensureProxy_later moved] at member
    split at member
    · cases member
    · exact (mem_writeWrapper member).trans moved
  · cases unmoved
    cases first
    rw [ensureProxy_first other] at member
    rcases List.mem_cons.mp member with rfl | member
    · rfl
    · exact mem_writeWrapper member

/-- A completed run: the original is away, and the wrapper has its name, unless the
wrapper is empty and there was no file by that name. -/
theorem Kept.completed (kept : Kept original dir) (other : wrapper ≠ original) :
    (dir.completed wrapper).real = some original ∧
      ((dir.completed wrapper).stock = some wrapper ∨ wrapper = [] ∧ dir.stock = none ∧ dir.completed wrapper = dir) := by
  obtain ⟨stock, real⟩ := dir
  rcases kept with moved | ⟨unmoved, first⟩
  · cases moved
    rw [LibDir.completed, ensureProxy_later rfl]
    split
    · rename_i same
      refine ⟨rfl, ?_⟩
      cases stock with
      | none => exact .inr ⟨same.symm, rfl, rfl⟩
      | some current => exact .inl (congrArg some same)
    · rw [writeWrapper_last]
      exact ⟨rfl, .inl rfl⟩
  · cases unmoved
    cases first
    rw [LibDir.completed, ensureProxy_first other, List.getLastD_cons, writeWrapper_last]
    exact ⟨rfl, .inl rfl⟩

/-- Once more does nothing. -/
theorem Kept.again (kept : Kept original dir) (other : wrapper ≠ original) :
    (ensureProxy true wrapper (dir.completed wrapper)).moments = [] := by
  obtain ⟨moved, deployed | ⟨empty, missing, same⟩⟩ := kept.completed other
  · rw [ensureProxy_later moved, deployed]
    exact if_pos rfl
  · rw [ensureProxy_later moved, same, missing, empty]
    exact if_pos rfl

theorem runProxy_kept (kept : Kept original dir) (other : r.wrapper ≠ original) (ran : runProxy dir r = some after) :
    Kept original after := by
  rw [runProxy] at ran
  split at ran
  · cases ran
    exact .inl (kept.completed other).1
  · rcases List.mem_cons.mp (List.mem_of_getElem? ran) with rfl | member
    · exact kept
    · exact .inl (kept.moments other after member)

end

/-- Over any runs with other wrappers, cut off anywhere, the original is intact. A run
that completes has it under its second name, and the wrapper, if there is any of it or a
file to replace, under its first. -/
theorem ensureProxy_keeps_original (original : Content)
    (reaches : Reaches runProxy (fun _ r => r.wrapper ≠ original) ⟨some original, none⟩ dir) :
    Intact original dir ∧ ∀ wrapper, wrapper ≠ original → Completes original wrapper dir := by
  have kept : Kept original dir :=
    reaches.invariant (fun _ _ _ kept other ran => runProxy_kept kept other ran) (.inr ⟨rfl, rfl⟩)
  refine ⟨kept.imp_right And.right, fun wrapper other => ?_⟩
  obtain ⟨preserved, deployed⟩ := kept.completed other
  refine ⟨preserved, fun something => deployed.resolve_right ?_, kept.again other⟩
  rintro ⟨empty, missing, _⟩
  exact something.elim (absurd empty) (absurd missing)

theorem ensureProxy_keeps_original_cut :
    Intact [1] ⟨none, some [1]⟩ ∧ ∀ wrapper, wrapper ≠ [1] → Completes [1] wrapper ⟨none, some [1]⟩ :=
  ensureProxy_keeps_original [1]
    (.next (a := ⟨[2, 3], some 1⟩) (by decide) (by decide) .refl)

/-- A run cut off after the rename, then one with an empty wrapper: no file has the name
that the engine loads. -/
theorem ensureProxy_empty_wrapper :
    Reaches runProxy (fun _ r => r.wrapper ≠ [1]) ⟨some [1], none⟩ ⟨none, some [1]⟩ ∧
      (LibDir.completed ⟨none, some [1]⟩ []).stock ≠ some [] :=
  ⟨.next (a := ⟨[2, 3], some 1⟩) (by decide) (by decide) .refl, by decide⟩

end JaplusProxy.Manager
