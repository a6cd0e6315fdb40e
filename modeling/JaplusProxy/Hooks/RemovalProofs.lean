import JaplusProxy.Hooks.RunProofs

/-! What RemoveHooks puts back. The inventory has eight bytes an entry, so a hook
with a longer prefix is planted and never recorded. -/
namespace JaplusProxy.Hooks
open CString ByteMemory X86Jump

/-- The hook is written over more bytes than an entry holds. -/
structure Overlong (disasm : Disasm) (s : State) (step : Step) : Prop where
  writes : Writes disasm s step
  long : 8 < step.call.prefixLen

/-- Every target byte is back after removal. -/
def Restored (disasm : Disasm) (k : Kernel) (s : State) (steps : List Step) : Prop :=
  ∀ step ∈ steps, ∀ a, step.call.Covers a →
    ((run disasm s steps).removeHooks k).memory.image a = s.memory.image a

/-! ### RemoveHooks -/

section
variable {k : Kernel} (writable : ∀ start len, k.mprotect start len = true)
include writable

theorem patchBytes_planted (image : Image 32) (p : Planted) :
    (patchBytes k image p.target p.orig).1 = image.write p.target p.orig := by
  rw [patchBytes, if_neg]
  rintro (null | empty | locked)
  · exact p.aimed null
  · exact p.nonempty (by rw [← p.saved, empty]; rfl)
  · exact locked (writable _ _)

theorem removeHooks_saved (s : State) (o : Image 32)
    (saved : ∀ p ∈ s.planted, p.orig = o.read p.target p.len)
    (back : (∃ p ∈ s.planted, Within p.target p.len a) ∨ s.memory.image a = o a) :
    (s.removeHooks k).memory.image a = o a := by
  rw [State.removeHooks]
  dsimp only
  generalize s.memory.image = image at back
  generalize s.planted = planted at saved back
  induction planted generalizing image with
  | nil => simpa using back
  | cons p rest ih =>
    rw [List.foldl_cons, patchBytes_planted writable]
    apply ih _ (fun q member => saved q (.tail _ member))
    rw [saved p (.head _), Image.write_saved]
    by_cases inside : Within p.target p.len a
    · exact .inr (if_pos inside)
    · rw [if_neg inside]
      simpa [inside] using back

theorem removeHooks_outside (s : State) (outside : ∀ p ∈ s.planted, ¬ Within p.target p.len a) :
    (s.removeHooks k).memory.image a = s.memory.image a := by
  rw [State.removeHooks]
  dsimp only
  generalize s.memory.image = image
  generalize s.planted = planted at outside
  induction planted generalizing image with
  | nil => rfl
  | cons p rest ih =>
    rw [List.foldl_cons, patchBytes_planted writable, ih _ fun q member => outside q (.tail _ member)]
    exact Image.write_outside _ _ _ (p.saved ▸ outside p (.head _))

end

/-! ### One target -/

section
variable {disasm : Disasm} {k : Kernel} {s : State} {step : Step} {before after : List Step}
variable (layout : Layout (before ++ step :: after)) (empty : s.planted = [])
variable (writable : ∀ start len, k.mprotect start len = true)
include layout empty writable

theorem short_restored (fits : ¬ Overlong disasm (run disasm s before) step) (covers : step.call.Covers a) :
    ((run disasm s (before ++ step :: after)).removeHooks k).memory.image a = s.memory.image a := by
  refine removeHooks_saved writable _ s.memory.image ?_ ?_
  · intro p member
    rcases run_origin member with earlier | ⟨first, other, rest, split, saves⟩
    · rw [empty] at earlier
      cases earlier
    · exact (split ▸ layout).saved saves
  · rw [run_append, run_cons]
    by_cases writes : Writes disasm (run disasm s before) step
    · have short : step.call.prefixLen ≤ 8 := Nat.not_lt.mp fun long => fits ⟨writes, long⟩
      have long := writes.able.long
      obtain ⟨p, tracked, saves⟩ := (run disasm s before).tracked_short writes.able.aimed (by omega) short
        (layout.room empty)
      obtain ⟨tr, _, _, planted⟩ := plantHook_writes writes
      refine .inl ⟨p, run_keeps ?_, ?_⟩
      · rw [planted, tracked]
        exact List.mem_append_right _ (.head _)
      · rw [saves.target, saves.len]
        exact covers.2
    · right
      rw [run_frame (layout.after_spares covers), (plantHook_idle writes).1]
      exact layout.untouched covers

theorem long_kept (overlong : Overlong disasm (run disasm s before) step) (covers : step.call.Covers a) :
    ((run disasm s (before ++ step :: after)).removeHooks k).memory.image a =
      s.memory.image.write step.call.addr step.call.jump a := by
  obtain ⟨tr, mapped, memory, planted⟩ := plantHook_writes overlong.writes
  rw [State.tracked_long _ overlong.long] at planted
  rw [removeHooks_outside writable, run_append, run_cons, run_frame (layout.after_spares covers), memory]
  · dsimp only [Call.hookedMemory]
    have inside : (a - step.call.addr).toNat < step.call.jump.length := by
      rw [step.call.length_jump overlong.writes.able.long]
      exact covers.2
    rw [Image.write, List.getD_eq_getElem _ _ inside, Image.write, List.getD_eq_getElem _ _ inside]
  · intro p member inside
    rw [run_append, run_cons] at member
    rcases run_origin member with earlier | ⟨first, other, rest, split, saves⟩
    · rw [planted] at earlier
      exact (layout.absent empty earlier).2 a covers inside
    · have later : other ∈ after := by simp [split]
      exact (layout.after_spares covers other later).1 (saves.covers inside)

theorem target_restored_iff :
    (∀ a, step.call.Covers a →
      ((run disasm s (before ++ step :: after)).removeHooks k).memory.image a = s.memory.image a) ↔
    (Overlong disasm (run disasm s before) step →
      (run disasm s before).memory.image.read step.call.addr step.call.prefixLen = step.call.jump) := by
  constructor
  · intro restored overlong
    have aimed := overlong.writes.able.aimed
    have short := overlong.writes.able.short
    have length := step.call.length_jump overlong.writes.able.long
    calc (run disasm s before).memory.image.read step.call.addr step.call.prefixLen
      _ = (s.memory.image.write step.call.addr step.call.jump).read step.call.addr step.call.prefixLen :=
        Image.read_congr _ fun a inside => by
          rw [layout.untouched ⟨aimed, inside⟩, ← restored a ⟨aimed, inside⟩,
            long_kept layout empty writable overlong ⟨aimed, inside⟩]
      _ = step.call.jump := by
        rw [← length]
        exact Image.read_write _ _ _ (by omega)
  · intro same a covers
    by_cases overlong : Overlong disasm (run disasm s before) step
    · rw [long_kept layout empty writable overlong covers, ← same overlong, Image.write_saved, if_pos covers.2]
      exact layout.untouched covers
    · exact short_restored layout empty writable overlong covers

end

/-! ### The engine hooks -/

/-- A kernel that grants everything. -/
def granting : Kernel where
  pageSize := 4096
  mprotect := fun _ _ => true
  mmap := fun size => if size ≤ 4096 then some 0xF7F00000 else none

/-- Lengths of the instructions of the engine's prologues. -/
def prologue : Disasm := fun image a =>
  if image a = 0x55 then ⟨1, false⟩ else if image a = 0x8B then ⟨2, false⟩
  else if image a = 0x83 then ⟨3, false⟩ else if image a = 0x81 then ⟨6, false⟩ else ⟨0, true⟩

/-- A process where nothing is hooked yet. -/
def booted (addr : Addr) (code : Bytes) : State where
  memory := { image := Image.write (fun _ => 0) addr code, tramps := fun _ => 0 }

def connless : Step where
  call := {
    name := ⟨lit "SV_ConnectionlessPacket", by decide⟩
    addr := 0x08056D64, prefixLen := 6, detour := 0xF7D01230, tramp := .connless }
  kernel := granting

def rcon : Step where
  call := {
    name := ⟨lit "SVC_RemoteCommand", by decide⟩
    addr := 0x08056B14, prefixLen := 9, detour := 0xF7D01450, tramp := .rcon }
  kernel := granting

theorem layout_granting (low : c.addr.toNat + c.prefixLen ≤ 0xF7F00000) : Layout [⟨c, granting⟩] where
  few := by simp [maxPlanted]
  names := by simp
  apart := List.pairwise_singleton ..
  fresh := by
    intro step member size tr mapped other otherMember a inside covers
    obtain rfl := List.mem_singleton.mp member
    obtain rfl := List.mem_singleton.mp otherMember
    simp only [granting, Option.ite_none_right_eq_some, Option.some.injEq] at mapped
    obtain ⟨small, rfl⟩ := mapped
    have covered := covers.2
    simp only [Within] at inside covered
    bv_omega

/-! ### Removal -/

/-- Removal undoes the run unless an overlong hook changed its target. -/
theorem removeHooks_restores_iff (layout : Layout steps) (empty : s.planted = [])
    (writable : ∀ start len, k.mprotect start len = true) :
    Restored disasm k s steps ↔ Along disasm s steps fun before step => Overlong disasm before step →
      before.memory.image.read step.call.addr step.call.prefixLen = step.call.jump := by
  constructor
  · intro restored before step after split
    subst split
    exact (target_restored_iff layout empty writable).mp (restored step (List.mem_append_right _ (.head _)))
  · intro along step member
    obtain ⟨before, after, rfl⟩ := List.append_of_mem member
    exact (target_restored_iff layout empty writable).mpr (along before step after rfl)

theorem removeHooks_restores_connless :
    Restored prologue granting (booted 0x08056D64 [0x55, 0x8B, 0xEC, 0x83, 0xEC, 0x20]) [connless] := by
  refine (removeHooks_restores_iff (layout_granting (by decide)) rfl fun _ _ => rfl).mpr (along_single ?_)
  exact fun overlong => absurd overlong.long (by decide)

theorem removeHooks_rcon : Layout [rcon] ∧
    ¬ Restored prologue granting (booted 0x08056B14 [0x55, 0x8B, 0xEC, 0x81, 0xEC, 0x20, 0xC5, 0, 0]) [rcon] := by
  refine ⟨layout_granting (by decide), fun restored => ?_⟩
  exact absurd (restored rcon (.head _) 0x08056B14 ⟨by decide, by decide⟩) (by decide +kernel)

end JaplusProxy.Hooks
