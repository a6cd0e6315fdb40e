import JaplusProxy.Hooks.RemovalProofs

/-! What PlantHook reports against what it did. The read-back looks the hook up in
the inventory, so an overlong hook is planted and reported as not armed. -/
namespace JaplusProxy.Hooks
open CString ByteMemory X86Jump

/-- The target's first instruction goes to the detour. -/
def Call.Jumps (c : Call) (image : Image 32) : Prop := c.addr ≠ 0 ∧ landing image c.addr = some c.detour

/-- The lines that a step adds. -/
def reports (disasm : Disasm) (s : State) (step : Step) : List Line :=
  (plantHook disasm step.kernel s step.call).stderr.drop s.stderr.length

/-- The count and the report agree with the target, and a report of failure with
every target of the run. -/
structure Truthful (disasm : Disasm) (steps : List Step) (s : State) (step : Step) : Prop where
  counted : (plantHook disasm step.kernel s step.call).hookOk = s.hookOk + 1 ↔
    step.call.Jumps (plantHook disasm step.kernel s step.call).memory.image
  printed : (∃ tramp, .hooked step.call.name step.call.addr tramp ∈ reports disasm s step) ↔
    (plantHook disasm step.kernel s step.call).hookOk = s.hookOk + 1
  unchanged : .notArmed step.call.name ∈ reports disasm s step ∨
      .lengthMismatch step.call.name step.call.addr ∈ reports disasm s step ∨
      .target step.call.name false ∈ reports disasm s step →
    ∀ other ∈ steps, ∀ a, other.call.Covers a →
      (plantHook disasm step.kernel s step.call).memory.image a = s.memory.image a

section
variable {disasm : Disasm} {s : State} {step : Step} {steps before after : List Step}

theorem reports_of_stderr (added : (plantHook disasm step.kernel s step.call).stderr = s.stderr ++ lines) :
    reports disasm s step = lines := by
  rw [reports, added, List.drop_left]

/-- A hook that is not written is reported so. -/
theorem reports_idle (idle : ¬ Writes disasm s step) :
    ∀ tramp, .hooked step.call.name step.call.addr tramp ∉ reports disasm s step := by
  intro tramp
  by_cases ok : hookLenOk disasm s.memory.image step.call.addr step.call.prefixLen
  · have failed := plantHook_failed ok fun able => idle ⟨ok, able⟩
    have added : (plantHook disasm step.kernel s step.call).stderr =
        s.stderr ++ [.target step.call.name true, .notArmed step.call.name] := by
      simp [failed, State.print]
    rw [reports_of_stderr added]
    simp
  · by_cases null : step.call.addr = 0
    · have added : (plantHook disasm step.kernel s step.call).stderr =
          s.stderr ++ [.target step.call.name false] := by
        simp [plantHook_skipped null, State.print]
      rw [reports_of_stderr added]
      simp
    · have added : (plantHook disasm step.kernel s step.call).stderr =
          s.stderr ++ [.target step.call.name true, .lengthMismatch step.call.name step.call.addr] := by
        simp [plantHook_mismatch null ok, State.print]
      rw [reports_of_stderr added]
      simp

theorem landing_hooked (c : Call) (m : Memory) (tr : Addr) :
    landing (c.hookedMemory m tr).image c.addr = some c.detour :=
  landing_write_jumpRel ..

theorem writes_jumps (writes : Writes disasm s step) :
    step.call.Jumps (plantHook disasm step.kernel s step.call).memory.image := by
  obtain ⟨tr, _, memory, _⟩ := plantHook_writes writes
  rw [memory]
  exact ⟨writes.able.aimed, landing_hooked ..⟩

/-- A recorded hook is found, armed and counted. -/
theorem plantHook_recorded (writes : Writes disasm s step) (short : step.call.prefixLen ≤ 8)
    (room : s.planted.length < maxPlanted) (absent : ∀ p ∈ s.planted, p.name ≠ step.call.name) :
    (plantHook disasm step.kernel s step.call).hookOk = s.hookOk + 1 ∧
      ∃ tramp, reports disasm s step =
        [.target step.call.name true, .hooked step.call.name step.call.addr tramp] := by
  have long := writes.able.long
  obtain ⟨p, tracked, saves⟩ := s.tracked_short writes.able.aimed (by omega) short room
  obtain ⟨tr, _, done⟩ := plantHook_done writes.ok writes.able
  have found : (s.tracked step.call).planted.find? (·.name = step.call.name) = some p := by
    have missing : s.planted.find? (·.name = step.call.name) = none :=
      List.find?_eq_none.mpr fun q member => by simpa using absent q member
    rw [tracked, List.find?_append, missing]
    simp [saves.name]
  have armed : (s.hooked step.call tr).hookArmed step.call.name step.call.detour := by
    rw [(s.hooked step.call tr).hookArmed_found found, saves.target]
    exact landing_hooked ..
  rw [if_pos armed] at done
  refine ⟨?_, tr, reports_of_stderr ?_⟩
  · rw [done]
    rfl
  · simp [done, State.print]

/-- An overlong hook is not found. -/
theorem plantHook_unrecorded (overlong : Overlong disasm s step)
    (absent : ∀ p ∈ s.planted, p.name ≠ step.call.name) :
    (plantHook disasm step.kernel s step.call).hookOk = s.hookOk := by
  obtain ⟨tr, _, done⟩ := plantHook_done overlong.writes.ok overlong.writes.able
  have lost : (s.hooked step.call tr).hookArmed step.call.name step.call.detour = false := by
    apply State.hookArmed_missing _
    rwa [State.hooked_planted, State.tracked_long _ overlong.long]
  rw [done, lost, if_neg Bool.false_ne_true]
  exact s.hooked_hookOk step.call tr

/-! ### Truth -/

theorem truthful_iff (room : s.planted.length < maxPlanted) (absent : ∀ p ∈ s.planted, p.name ≠ step.call.name)
    (unhooked : ¬ step.call.Jumps s.memory.image) :
    Truthful disasm steps s step ↔ ¬ Overlong disasm s step := by
  constructor
  · intro truthful overlong
    have counted := truthful.counted.mpr (writes_jumps overlong.writes)
    have lost := plantHook_unrecorded overlong absent
    omega
  · intro fits
    by_cases writes : Writes disasm s step
    · have short : step.call.prefixLen ≤ 8 := Nat.not_lt.mp fun long => fits ⟨writes, long⟩
      obtain ⟨counted, tramp, lines⟩ := plantHook_recorded writes short room absent
      constructor
      · exact iff_of_true counted (writes_jumps writes)
      · exact iff_of_true ⟨tramp, by simp [lines]⟩ counted
      · simp [lines]
    · obtain ⟨memory, count⟩ := plantHook_idle writes
      have uncounted : (plantHook disasm step.kernel s step.call).hookOk ≠ s.hookOk + 1 := by omega
      constructor
      · apply iff_of_false uncounted
        rwa [memory]
      · apply iff_of_false _ uncounted
        rintro ⟨tramp, line⟩
        exact reports_idle writes tramp line
      · intro _ _ _ a _
        rw [memory]

/-- Reports are truthful in a run exactly when no hook in it is overlong. -/
theorem plantHook_truthful_iff (layout : Layout steps) (empty : s.planted = [])
    (unhooked : Along disasm s steps fun before step => ¬ step.call.Jumps before.memory.image) :
    Along disasm s steps (Truthful disasm steps) ↔
      Along disasm s steps fun before step => ¬ Overlong disasm before step := by
  have each : ∀ before step after, steps = before ++ step :: after →
      (Truthful disasm steps (run disasm s before) step ↔ ¬ Overlong disasm (run disasm s before) step) := by
    intro before step after split
    have placed := split ▸ layout
    exact truthful_iff (placed.room empty) (fun p member => (placed.absent empty member).1)
      (unhooked before step after split)
  constructor
  · intro along before step after split
    exact (each before step after split).mp (along before step after split)
  · intro along before step after split
    exact (each before step after split).mpr (along before step after split)

theorem plantHook_truthful_connless :
    Along prologue (booted 0x08056D64 [0x55, 0x8B, 0xEC, 0x83, 0xEC, 0x20]) [connless]
      (Truthful prologue [connless]) := by
  refine (plantHook_truthful_iff (layout_granting (by decide)) rfl (along_single ?_)).mpr (along_single ?_)
  · exact fun jumps => absurd jumps.2 (by decide +kernel)
  · exact fun overlong => absurd overlong.long (by decide)

theorem plantHook_rcon_unarmed : Layout [rcon] ∧
    ¬ rcon.call.Jumps (booted 0x08056B14 [0x55, 0x8B, 0xEC, 0x81, 0xEC, 0x20, 0xC5, 0, 0]).memory.image ∧
    ¬ Truthful prologue [rcon] (booted 0x08056B14 [0x55, 0x8B, 0xEC, 0x81, 0xEC, 0x20, 0xC5, 0, 0]) rcon := by
  refine ⟨layout_granting (by decide), fun jumps => absurd jumps.2 (by decide +kernel), fun truthful => ?_⟩
  exact absurd (truthful.counted.mpr ⟨by decide, by decide +kernel⟩) (by decide +kernel)

end

end JaplusProxy.Hooks
