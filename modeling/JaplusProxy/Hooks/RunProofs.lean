import JaplusProxy.Hooks.PlantProofs

/-! Runs of PlantHook calls whose targets lie apart: who writes a target byte, and
where the entries of the inventory come from. -/
namespace JaplusProxy.Hooks
open ByteMemory X86Jump

/-- One of the bytes of the target. -/
def Call.Covers (c : Call) (a : Addr) : Prop := c.addr ≠ 0 ∧ Within c.addr c.prefixLen a

theorem Planted.Saves.covers {p : Planted} (saves : p.Saves image c) (inside : Within p.target p.len a) : c.Covers a := by
  rw [saves.target, saves.len] at inside
  exact ⟨saves.target ▸ p.aimed, inside⟩

/-- No more calls than the inventory holds, with distinct names and targets that lie
apart. A mapping is fresh: it lies apart from every target. -/
structure Layout (steps : List Step) : Prop where
  few : steps.length ≤ maxPlanted
  names : (steps.map (·.call.name)).Nodup
  apart : steps.Pairwise fun first second => ∀ a, first.call.Covers a → ¬ second.call.Covers a
  fresh : ∀ step ∈ steps, ∀ size tr, step.kernel.mmap size = some tr →
    ∀ other ∈ steps, ∀ a, Within tr size a → ¬ other.call.Covers a

/-- Every step, at the state it starts from. -/
def Along (disasm : Disasm) (s : State) (steps : List Step) (holds : State → Step → Prop) : Prop :=
  ∀ before step after, steps = before ++ step :: after → holds (run disasm s before) step

/-- The step neither hooks nor maps the address. -/
def Step.Spares (step : Step) (a : Addr) : Prop :=
  ¬ step.call.Covers a ∧ ∀ size tr, step.kernel.mmap size = some tr → ¬ Within tr size a

section
variable {disasm : Disasm} {s : State} {step : Step} {steps before after : List Step}

@[simp] theorem run_cons :
    run disasm s (step :: steps) = run disasm (plantHook disasm step.kernel s step.call) steps := rfl

theorem run_append : run disasm s (before ++ after) = run disasm (run disasm s before) after :=
  List.foldl_append

theorem along_single {holds : State → Step → Prop} (one : holds s step) : Along disasm s [step] holds := by
  intro before other after split
  cases before with
  | nil =>
    obtain ⟨rfl, _⟩ := List.cons_eq_cons.mp split
    exact one
  | cons first rest => simp at split

/-! ### Frames -/

theorem hookedMemory_outside {c : Call} (m : Memory) (long : 5 ≤ c.prefixLen)
    (outside : ¬ Within c.addr c.prefixLen a) (unmapped : ¬ Within tr (c.prefixLen + 5) a) :
    (c.hookedMemory m tr).image a = m.image a := by
  dsimp only [Call.hookedMemory]
  rw [Image.write_outside _ _ _ (by rwa [c.length_jump long]),
    Image.write_outside _ _ _ (by rwa [c.length_trampoline])]

theorem plantHook_frame (spares : step.Spares a) :
    (plantHook disasm step.kernel s step.call).memory.image a = s.memory.image a := by
  by_cases writes : Writes disasm s step
  · obtain ⟨tr, mapped, memory, _⟩ := plantHook_writes writes
    rw [memory]
    exact hookedMemory_outside _ writes.able.long (fun inside => spares.1 ⟨writes.able.aimed, inside⟩)
      (spares.2 _ tr mapped)
  · rw [(plantHook_idle writes).1]

theorem run_frame (spares : ∀ step ∈ steps, step.Spares a) :
    (run disasm s steps).memory.image a = s.memory.image a := by
  induction steps generalizing s with
  | nil => rfl
  | cons step rest ih =>
    rw [run_cons, ih fun other member => spares other (.tail _ member)]
    exact plantHook_frame (spares step (.head _))

/-! ### The inventory -/

theorem run_origin (member : p ∈ (run disasm s steps).planted) : p ∈ s.planted ∨
    ∃ before step after, steps = before ++ step :: after ∧
      p.Saves (run disasm s before).memory.image step.call := by
  induction steps generalizing s with
  | nil => exact .inl member
  | cons step rest ih =>
    rcases ih member with earlier | ⟨before, other, after, split, saves⟩
    · rcases plantHook_grows disasm step.kernel s step.call with same | ⟨q, grown, saves⟩
      · exact .inl (same ▸ earlier)
      · rw [grown, List.mem_append, List.mem_singleton] at earlier
        apply earlier.imp_right
        rintro rfl
        exact ⟨[], step, rest, rfl, saves⟩
    · exact .inr ⟨step :: before, other, after, by rw [split]; rfl, saves⟩

theorem run_keeps (member : p ∈ s.planted) : p ∈ (run disasm s steps).planted := by
  induction steps generalizing s with
  | nil => exact member
  | cons step rest ih =>
    apply ih
    rcases plantHook_grows disasm step.kernel s step.call with same | ⟨q, grown, _⟩
    · rwa [same]
    · rw [grown]
      exact List.mem_append_left _ member

theorem run_count (disasm : Disasm) (s : State) (steps : List Step) :
    (run disasm s steps).planted.length ≤ s.planted.length + steps.length := by
  induction steps generalizing s with
  | nil => exact Nat.le_refl _
  | cons step rest ih =>
    have later := ih (plantHook disasm step.kernel s step.call)
    rw [run_cons, List.length_cons]
    rcases plantHook_grows disasm step.kernel s step.call with same | ⟨q, grown, _⟩
    · rw [same] at later
      omega
    · rw [grown, List.length_append, List.length_singleton] at later
      omega

/-! ### One step of a run -/

namespace Layout
variable (layout : Layout (before ++ step :: after))
include layout

theorem room (empty : s.planted = []) : (run disasm s before).planted.length < maxPlanted := by
  have few := layout.few
  have count := run_count disasm s before
  rw [empty, List.length_nil] at count
  rw [List.length_append, List.length_cons] at few
  omega

theorem before_spares (covers : step.call.Covers a) : ∀ other ∈ before, other.Spares a := by
  intro other member
  constructor
  · intro both
    exact (List.pairwise_append.mp layout.apart).2.2 other member step (.head _) a both covers
  · intro size tr mapped inside
    exact layout.fresh other (List.mem_append_left _ member) size tr mapped step
      (List.mem_append_right _ (.head _)) a inside covers

theorem after_spares (covers : step.call.Covers a) : ∀ other ∈ after, other.Spares a := by
  intro other member
  constructor
  · intro both
    have tail := (List.pairwise_append.mp layout.apart).2.1
    exact (List.pairwise_cons.mp tail).1 other member a covers both
  · intro size tr mapped inside
    exact layout.fresh other (List.mem_append_right _ (.tail _ member)) size tr mapped step
      (List.mem_append_right _ (.head _)) a inside covers

/-- The target is as it was when the step comes to it. -/
theorem untouched (covers : step.call.Covers a) : (run disasm s before).memory.image a = s.memory.image a :=
  run_frame (layout.before_spares covers)

/-- An entry holds what its target held before the run. -/
theorem saved {p : Planted} (saves : p.Saves (run disasm s before).memory.image step.call) :
    p.orig = s.memory.image.read p.target p.len := by
  rw [saves.orig]
  exact Image.read_congr _ fun a inside => layout.untouched (saves.covers inside)

/-- No entry so far is the step's. -/
theorem absent (empty : s.planted = []) (member : p ∈ (run disasm s before).planted) :
    p.name ≠ step.call.name ∧ ∀ a, step.call.Covers a → ¬ Within p.target p.len a := by
  rcases run_origin member with earlier | ⟨first, other, rest, split, saves⟩
  · rw [empty] at earlier
    cases earlier
  · have earlier : other ∈ before := by simp [split]
    refine ⟨?_, fun a covers inside => ?_⟩
    · have names := layout.names
      rw [List.map_append, List.nodup_append] at names
      rw [saves.name]
      exact names.2.2 _ (List.mem_map_of_mem earlier) _ (List.mem_map_of_mem (.head _))
    · exact (layout.before_spares covers other earlier).1 (saves.covers inside)

end Layout

end

end JaplusProxy.Hooks
