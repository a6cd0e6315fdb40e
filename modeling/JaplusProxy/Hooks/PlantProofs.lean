import JaplusProxy.Hooks.Plant

/-! What one PlantHook call does to memory, to the inventory and to the report. -/
namespace JaplusProxy.Hooks
open CInt CString ByteMemory X86Jump

/-! ### HookAuto -/

/-- An `intptr_t` has 32 bits, so the cast to `int32_t` keeps it. -/
theorem int32_toInt (x : Addr) : int32 x.toInt = x.toInt :=
  int32_of_range (BitVec.le_toInt x) (BitVec.toInt_lt (x := x))

theorem hookJumpN_refused (guard : target = 0 ∨ detour = 0 ∨ len < 5 ∨ 64 < len) :
    hookJumpN k m target detour len out = (m, -1) :=
  if_pos guard

/-- A relative jump reaches every detour: absolute jumps are never written. -/
theorem hookAuto_eq_hookJumpN : hookAuto k m target detour len out = hookJumpN k m target detour len out := by
  rw [hookAuto]
  dsimp only
  split
  · rename_i refused
    have guard : target = 0 ∨ detour = 0 ∨ len < 5 ∨ 64 < len :=
      refused.imp_right (Or.imp_right (Or.imp_left (by omega)))
    exact (hookJumpN_refused guard).symm
  · rw [int32_toInt]
    by_cases long : 5 ≤ len
    · rw [if_pos ⟨long, rfl⟩]
    · have guard : target = 0 ∨ detour = 0 ∨ len < 5 ∨ 64 < len := .inr (.inr (.inl (by omega)))
      rw [if_neg (fun both => long both.1), if_neg (by omega), hookJumpN_refused guard]

/-- The system calls and the arguments let HookAuto through. -/
structure Hookable (k : Kernel) (c : Call) : Prop where
  aimed : c.addr ≠ 0
  detour : c.detour ≠ 0
  long : 5 ≤ c.prefixLen
  short : c.prefixLen ≤ 64
  mapped : (k.mmap (c.prefixLen + 5)).isSome
  writable : makeWritable k c.addr c.prefixLen

namespace Call
variable (c : Call)

/-- What a planted hook puts over its target. -/
def jump : Bytes := jumpRel c.addr c.detour ++ nops (c.prefixLen - 5)

/-- What the mapping at `tr` holds. -/
def trampoline (image : Image 32) (tr : Addr) : Bytes :=
  image.read c.addr c.prefixLen ++
    jumpRel (tr + BitVec.ofNat 32 c.prefixLen) (c.addr + BitVec.ofNat 32 c.prefixLen)

theorem length_jump (long : 5 ≤ c.prefixLen) : c.jump.length = c.prefixLen := by
  rw [jump, List.length_append, length_jumpRel, length_nops]
  omega

theorem length_trampoline : (c.trampoline image tr).length = c.prefixLen + 5 := by simp [trampoline]

/-- The memory after the hook went in. -/
def hookedMemory (m : Memory) (tr : Addr) : Memory where
  image := (m.image.write tr (c.trampoline m.image tr)).write c.addr c.jump
  tramps := Function.update m.tramps c.tramp tr

end Call

theorem hookAuto_done (able : Hookable k c) : ∃ tr, k.mmap (c.prefixLen + 5) = some tr ∧
    hookAuto k m c.addr c.detour c.prefixLen c.tramp = (c.hookedMemory m tr, 0) := by
  obtain ⟨tr, mapped⟩ := Option.isSome_iff_exists.mp able.mapped
  have long := able.long
  have short := able.short
  have guard : ¬ (c.addr = 0 ∨ c.detour = 0 ∨ c.prefixLen < 5 ∨ 64 < c.prefixLen) := by
    rintro (null | null | bound | bound)
    · exact able.aimed null
    · exact able.detour null
    · omega
    · omega
  have patched (image : Image 32) : patchBytes k image c.addr c.jump = (image.write c.addr c.jump, 0) := by
    apply if_neg
    rintro (null | empty | locked)
    · exact able.aimed null
    · simp [Call.jump, jumpRel] at empty
    · rw [c.length_jump long] at locked
      exact locked able.writable
  refine ⟨tr, mapped, ?_⟩
  rw [hookAuto_eq_hookJumpN, hookJumpN, hookJump, length_jumpRel, if_neg guard, mapped]
  have planted := patched (m.image.write tr (c.trampoline m.image tr))
  dsimp only [Call.jump, Call.trampoline] at planted ⊢
  rw [planted]
  rfl

theorem hookAuto_failed (unable : ¬ Hookable k c) :
    hookAuto k m c.addr c.detour c.prefixLen c.tramp = (m, -1) := by
  rw [hookAuto_eq_hookJumpN, hookJumpN, hookJump, length_jumpRel]
  split
  · rfl
  · rename_i guard
    simp only [not_or, Nat.not_lt] at guard
    obtain ⟨aimed, detour, long, short⟩ := guard
    cases mapped : k.mmap (c.prefixLen + 5) with
    | none => rfl
    | some tr =>
      have locked : ¬ makeWritable k c.addr c.prefixLen := fun writable =>
        unable ⟨aimed, detour, long, short, by rw [mapped]; rfl, writable⟩
      have refused (image : Image 32) : patchBytes k image c.addr c.jump = (image, -1) := by
        refine if_pos (.inr (.inr ?_))
        rwa [c.length_jump long]
      dsimp only [Call.jump] at refused ⊢
      rw [refused]
      rfl

/-! ### The inventory -/

/-- The entry that tracking adds for a call. -/
structure Planted.Saves (p : Planted) (image : Image 32) (c : Call) : Prop where
  name : p.name = c.name
  target : p.target = c.addr
  len : p.len = c.prefixLen
  orig : p.orig = image.read p.target p.len

namespace State
variable (s : State)

/-- Before the hook is planted. -/
def tracked (c : Call) : State :=
  { s.print (.target c.name true) with hookTry := s.hookTry + 1 }.trackHook c.name c.addr c.prefixLen

@[simp] theorem tracked_memory (c : Call) : (s.tracked c).memory = s.memory := by
  unfold tracked trackHook
  split <;> rfl

@[simp] theorem tracked_hookOk (c : Call) : (s.tracked c).hookOk = s.hookOk := by
  unfold tracked trackHook
  split <;> rfl

@[simp] theorem tracked_stderr (c : Call) : (s.tracked c).stderr = s.stderr ++ [.target c.name true] := by
  unfold tracked trackHook
  split <;> rfl

/-- The entry has room and the prefix fits it, or nothing is recorded. -/
theorem tracked_planted (c : Call) :
    (s.tracked c).planted = s.planted ∧ (c.addr = 0 ∨ c.prefixLen = 0 ∨ 8 < c.prefixLen ∨ maxPlanted ≤ s.planted.length) ∨
      ∃ p : Planted, (s.tracked c).planted = s.planted ++ [p] ∧ p.Saves s.memory.image c := by
  unfold tracked trackHook
  split
  · rename_i full
    refine .inl ⟨rfl, ?_⟩
    rcases full with full | null | empty | long
    · exact .inr (.inr (.inr full))
    · exact .inl null
    · exact .inr (.inl empty)
    · exact .inr (.inr (.inl long))
  · exact .inr ⟨_, rfl, rfl, rfl, rfl, rfl⟩

theorem tracked_long (long : 8 < c.prefixLen) : (s.tracked c).planted = s.planted := by
  rw [tracked, trackHook, dif_pos (.inr (.inr (.inr long)))]
  rfl

theorem tracked_short (aimed : c.addr ≠ 0) (nonempty : c.prefixLen ≠ 0) (short : c.prefixLen ≤ 8)
    (room : s.planted.length < maxPlanted) :
    ∃ p : Planted, (s.tracked c).planted = s.planted ++ [p] ∧ p.Saves s.memory.image c := by
  apply (s.tracked_planted c).resolve_left
  rintro ⟨_, null | empty | long | full⟩
  · exact aimed null
  · exact nonempty empty
  · omega
  · omega

/-- After the hook went in, before it is read back. -/
def hooked (c : Call) (tr : Addr) : State := { s.tracked c with memory := c.hookedMemory s.memory tr }

@[simp] theorem hooked_planted (c : Call) (tr : Addr) : (s.hooked c tr).planted = (s.tracked c).planted := rfl
@[simp] theorem hooked_hookOk (c : Call) (tr : Addr) : (s.hooked c tr).hookOk = s.hookOk := s.tracked_hookOk c
@[simp] theorem hooked_stderr (c : Call) (tr : Addr) :
    (s.hooked c tr).stderr = s.stderr ++ [.target c.name true] := s.tracked_stderr c

/-- What the read-back makes of the entry it finds. -/
theorem hookArmed_found (found : s.planted.find? (·.name = name) = some p) :
    s.hookArmed name detour ↔ landing s.memory.image p.target = some detour := by
  rw [hookArmed, found, landing]
  dsimp only
  split
  · simp
  · split <;> simp

theorem hookArmed_missing (absent : ∀ p ∈ s.planted, p.name ≠ name) : s.hookArmed name detour = false := by
  have missing : s.planted.find? (·.name = name) = none :=
    List.find?_eq_none.mpr fun p member => by simpa using absent p member
  rw [hookArmed, missing]

end State

/-! ### PlantHook -/

/-- The loop ends within `want` instructions, so fuel never decides. -/
theorem hookLen_fuel (disasm : Disasm) (image : Image 32) (addr : Addr) (more : Nat) (enough : want ≤ n + fuel) :
    hookLen disasm image addr want (fuel + more) n = hookLen disasm image addr want fuel n := by
  induction fuel generalizing n with
  | zero =>
    cases more with
    | zero => rfl
    | succ more =>
      rw [Nat.zero_add]
      exact if_neg (by omega)
  | succ fuel ih =>
    rw [Nat.succ_add, hookLen, hookLen]
    dsimp only
    split
    · split
      · rfl
      · rename_i decoded
        simp only [not_or] at decoded
        exact ih (by omega)
    · rfl

theorem hookLenOk_aimed (ok : hookLenOk disasm image addr want) : addr ≠ 0 := by
  intro null
  rw [hookLenOk, if_pos (.inl null)] at ok
  exact absurd ok (by decide)

/-- The hook gets written. -/
structure Writes (disasm : Disasm) (s : State) (step : Step) : Prop where
  ok : hookLenOk disasm s.memory.image step.call.addr step.call.prefixLen
  able : Hookable step.kernel step.call

section
variable {disasm : Disasm} {k : Kernel} {s : State} {c : Call}

theorem plantHook_skipped (null : c.addr = 0) : plantHook disasm k s c = s.print (.target c.name false) := by
  rw [plantHook]
  dsimp only
  rw [if_pos null]
  simp [null]

theorem plantHook_mismatch (aimed : c.addr ≠ 0) (bad : ¬ hookLenOk disasm s.memory.image c.addr c.prefixLen) :
    plantHook disasm k s c =
      { s.print (.target c.name true) with hookTry := s.hookTry + 1 }.print (.lengthMismatch c.name c.addr) := by
  have verified : decide (c.addr ≠ 0) = true := decide_eq_true aimed
  rw [plantHook, verified]
  dsimp only [State.print]
  rw [if_neg aimed, if_pos bad]

theorem plantHook_accepted (ok : hookLenOk disasm s.memory.image c.addr c.prefixLen) :
    plantHook disasm k s c =
      let (memory, ret) := hookAuto k (s.tracked c).memory c.addr c.detour c.prefixLen c.tramp
      let after := { s.tracked c with memory := memory }
      if ret = 0 ∧ after.hookArmed c.name c.detour then
        { after with hookOk := after.hookOk + 1 }.print (.hooked c.name c.addr (memory.tramps c.tramp))
      else after.print (.notArmed c.name) := by
  have aimed := hookLenOk_aimed ok
  have verified : decide (c.addr ≠ 0) = true := decide_eq_true aimed
  rw [plantHook, verified]
  dsimp only [State.print]
  rw [if_neg aimed, if_neg (not_not.mpr ok)]
  rfl

theorem plantHook_failed (ok : hookLenOk disasm s.memory.image c.addr c.prefixLen) (unable : ¬ Hookable k c) :
    plantHook disasm k s c = (s.tracked c).print (.notArmed c.name) := by
  rw [plantHook_accepted ok, hookAuto_failed unable]
  exact if_neg fun both => absurd both.1 (by decide)

theorem plantHook_done (ok : hookLenOk disasm s.memory.image c.addr c.prefixLen) (able : Hookable k c) :
    ∃ tr, k.mmap (c.prefixLen + 5) = some tr ∧ plantHook disasm k s c =
      if (s.hooked c tr).hookArmed c.name c.detour then
        { s.hooked c tr with hookOk := s.hookOk + 1 }.print (.hooked c.name c.addr tr)
      else (s.hooked c tr).print (.notArmed c.name) := by
  obtain ⟨tr, mapped, planted⟩ := hookAuto_done (m := s.memory) able
  refine ⟨tr, mapped, ?_⟩
  have written : (c.hookedMemory s.memory tr).tramps c.tramp = tr := Function.update_self ..
  rw [plantHook_accepted ok, s.tracked_memory, planted]
  simp only [true_and, written]
  rw [← s.hooked_hookOk c tr]
  rfl

/-- A hook that is not written leaves memory and the count alone. -/
theorem plantHook_idle (idle : ¬ Writes disasm s step) :
    (plantHook disasm step.kernel s step.call).memory = s.memory ∧
      (plantHook disasm step.kernel s step.call).hookOk = s.hookOk := by
  by_cases ok : hookLenOk disasm s.memory.image step.call.addr step.call.prefixLen
  · rw [plantHook_failed ok fun able => idle ⟨ok, able⟩]
    exact ⟨s.tracked_memory _, s.tracked_hookOk _⟩
  · by_cases null : step.call.addr = 0
    · rw [plantHook_skipped null]
      exact ⟨rfl, rfl⟩
    · rw [plantHook_mismatch null ok]
      exact ⟨rfl, rfl⟩

theorem plantHook_writes (writes : Writes disasm s step) : ∃ tr,
    step.kernel.mmap (step.call.prefixLen + 5) = some tr ∧
      (plantHook disasm step.kernel s step.call).memory = step.call.hookedMemory s.memory tr ∧
      (plantHook disasm step.kernel s step.call).planted = (s.tracked step.call).planted := by
  obtain ⟨tr, mapped, done⟩ := plantHook_done writes.ok writes.able
  refine ⟨tr, mapped, ?_⟩
  rw [done]
  dsimp only
  split <;> exact ⟨rfl, rfl⟩

theorem plantHook_planted (disasm : Disasm) (k : Kernel) (s : State) (c : Call) :
    (plantHook disasm k s c).planted = s.planted ∨
    (plantHook disasm k s c).planted = (s.tracked c).planted := by
  by_cases ok : hookLenOk disasm s.memory.image c.addr c.prefixLen
  · right
    rw [plantHook_accepted ok]
    dsimp only
    split <;> rfl
  · left
    by_cases null : c.addr = 0
    · rw [plantHook_skipped null]
      rfl
    · rw [plantHook_mismatch null ok]
      rfl

/-- The inventory grows by at most the call's own entry. -/
theorem plantHook_grows (disasm : Disasm) (k : Kernel) (s : State) (c : Call) :
    (plantHook disasm k s c).planted = s.planted ∨
    ∃ p : Planted, (plantHook disasm k s c).planted = s.planted ++ [p] ∧ p.Saves s.memory.image c := by
  rcases plantHook_planted disasm k s c with same | tracked
  · exact .inl same
  · rw [tracked]
    exact (s.tracked_planted c).imp_left And.left

end

end JaplusProxy.Hooks
