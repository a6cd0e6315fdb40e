import JaplusProxy.Hooks.Install
import JaplusProxy.Hooks.RemovalProofs
import Mathlib.Data.Set.Basic

/-! What InstallPatches may change: the prefix of a hook whose interlock held before it
ran. First bytes are compared inside the hook's own target, which no other hook
writes; an anchor is looked for beyond it, where the jump of an earlier hook may stand. -/
namespace JaplusProxy.Hooks
open CString ByteMemory X86Jump

@[simp] theorem State.print_memory (s : State) (line : Line) : (s.print line).memory = s.memory := rfl

/-! ### The length check -/

/-- Consecutive instructions from an address, and their lengths together. -/
inductive Instructions (disasm : Disasm) (image : Image 32) : Addr → Nat → Prop where
  | done : Instructions disasm image a 0
  | next : (disasm image a).len ≠ 0 → (disasm image a).error = false →
      Instructions disasm image (a + BitVec.ofNat 32 (disasm image a).len) n →
      Instructions disasm image a ((disasm image a).len + n)

theorem hookLen_instructions (ok : hookLen disasm image addr want fuel n) :
    ∃ rest, want = n + rest ∧ Instructions disasm image (addr + BitVec.ofNat 32 n) rest := by
  induction fuel generalizing n with
  | zero => exact ⟨0, (of_decide_eq_true ok).symm, .done⟩
  | succ fuel ih =>
    rw [hookLen] at ok
    dsimp only at ok
    split at ok
    · split at ok
      · contradiction
      · rename_i decoded
        simp only [not_or, Bool.not_eq_true] at decoded
        obtain ⟨rest, total, following⟩ := ih ok
        rw [BitVec.ofNat_add, ← BitVec.add_assoc] at following
        exact ⟨_, by omega, .next decoded.1 decoded.2 following⟩
    · exact ⟨0, (of_decide_eq_true ok).symm, .done⟩

/-- An accepted length ends on an instruction boundary. -/
theorem hookLenOk_instructions (ok : hookLenOk disasm image addr want) : Instructions disasm image addr want := by
  rw [hookLenOk] at ok
  split at ok
  · contradiction
  · obtain ⟨rest, total, instructions⟩ := hookLen_instructions ok
    rw [Nat.zero_add] at total
    simpa [total] using instructions

/-! ### Interlocks -/

/-- Where a hook goes and what it asks for first. -/
structure Site where
  addr : Addr
  prefixLen : Nat
  expect : Bytes
  /-- The anchor and how far it may stand from the address. -/
  anchor : Option (BitVec 32 × Nat)
  tramp : Tramp

namespace Site
variable (x : Site)

/-- One of the bytes that the hook may write. -/
def Covers (a : Addr) : Prop := Within x.addr x.prefixLen a

instance decidableCovers (a : Addr) : Decidable (x.Covers a) := inferInstanceAs (Decidable (Within ..))

def Matches (image : Image 32) : Prop := image.read x.addr x.expect.length = x.expect

def Anchored (image : Image 32) : Prop := ∀ anchor scan, x.anchor = some (anchor, scan) →
  ∃ i, i + 4 ≤ scan ∧ dwordAt image (x.addr + BitVec.ofNat 32 i) = anchor

/-- What is checked in memory before the hook is written there. -/
structure Arms (disasm : Disasm) (image : Image 32) : Prop where
  expected : x.Matches image
  anchored : x.Anchored image
  whole : Instructions disasm image x.addr x.prefixLen

/-- One of the bytes that the interlock reads. -/
def Reads (a : Addr) : Prop := x.Covers a ∨ ∃ anchor scan, x.anchor = some (anchor, scan) ∧ Within x.addr scan a

end Site

theorem matchesAt_iff : matchesAt image addr expect ↔ image.read addr expect.length = expect :=
  decide_eq_true_iff

theorem resolveTarget_spec (s : State) (base : Addr) (t : Target) :
    (resolveTarget s base t).1.memory = s.memory ∧ ((resolveTarget s base t).2 ≠ 0 →
      (resolveTarget s base t).2 = base + t.vaddr ∧
        matchesAt s.memory.image (base + t.vaddr) (t.expect.take (if t.expectLen ≤ 6 then t.expectLen else 6))) := by
  simp only [resolveTarget]
  generalize (if t.expectLen ≤ 6 then t.expectLen else 6) = n
  split
  · exact ⟨rfl, fun found => absurd rfl found⟩
  · rename_i accepted
    simp only [not_or, not_not] at accepted
    exact ⟨rfl, fun _ => ⟨rfl, accepted.2⟩⟩

theorem anchorScan_found (found : anchorScan image addr anchor scan = some i) :
    i + 4 ≤ scan ∧ dwordAt image (addr + BitVec.ofNat 32 i) = anchor := by
  have member := List.mem_of_find?_eq_some found
  have here := List.find?_some found
  rw [List.mem_range] at member
  exact ⟨by omega, of_decide_eq_true here⟩

theorem resolveEngineAbs_spec (s : State) (name : CStr) (off : Addr) (expect : Bytes) (anchor : BitVec 32)
    (scan : Nat) : (resolveEngineAbs s name off expect anchor scan).1.memory = s.memory ∧
      ((resolveEngineAbs s name off expect anchor scan).2 ≠ 0 →
        (resolveEngineAbs s name off expect anchor scan).2 = engineBase + off ∧
          matchesAt s.memory.image (engineBase + off) expect ∧
          ∃ i, i + 4 ≤ scan ∧ dwordAt s.memory.image (engineBase + off + BitVec.ofNat 32 i) = anchor) := by
  rw [resolveEngineAbs]
  split
  · exact ⟨rfl, fun found => absurd rfl found⟩
  · rename_i accepted
    simp only [not_or, not_not] at accepted
    split
    · exact ⟨rfl, fun found => absurd rfl found⟩
    · rename_i i found
      exact ⟨rfl, fun _ => ⟨rfl, accepted.2.2, i, anchorScan_found found⟩⟩

/-! ### The four hooks -/

namespace Process
variable (p : Process)

def siege : Site where
  addr := p.base + 0x10DB34
  prefixLen := 9
  expect := [0x57, 0x56, 0x53, 0x8B, 0x15]
  anchor := none
  tramp := .siegeFind

def connless : Site where
  addr := 0x08056D64
  prefixLen := 6
  expect := [0x55, 0x8B, 0xEC, 0x83, 0xEC, 0x20]
  anchor := some (0x0819D654, 0x400)
  tramp := .connless

def donedl : Site where
  addr := 0x0804EAA4
  prefixLen := 6
  expect := [0x55, 0x8B, 0xEC, 0x83, 0xEC, 0x10]
  anchor := some (0x0819B5B8, 0x100)
  tramp := .donedl

def rcon : Site where
  addr := 0x08056B14
  prefixLen := 9
  expect := [0x55, 0x8B, 0xEC, 0x81, 0xEC, 0x20]
  anchor := some (0x0819D5B0, 0x400)
  tramp := .rcon

/-- The hooks that the settings leave, in their order. -/
def sites : List Site :=
  if p.base = 0 ∨ p.noHooks then []
  else p.siege :: (if p.noOob then [donedl, rcon] else [connless, donedl, rcon])

/-- The memory that the process has: it holds what the interlocks read, the targets lie
apart, and mmap gives none of it out again. -/
structure Placed (existing : Set Addr) : Prop where
  mapped : ∀ x ∈ p.sites, ∀ a, x.Reads a → a ∈ existing
  apart : p.sites.Pairwise fun x y => ∀ a, x.Covers a → ¬ y.Covers a
  fresh : ∀ tramp size tr, (p.kernel tramp).mmap size = some tr → ∀ a ∈ existing, ¬ Within tr size a

/-- One hook: what it leaves alone, and what it writes after which checks. -/
structure Stage (disasm : Disasm) (existing : Set Addr) (x : Site) (m m' : Image 32) : Prop where
  kept : ∀ a ∈ existing, ¬ x.Covers a → m' a = m a
  written : m' = m ∨ x.Arms disasm m ∧
    m'.read x.addr x.prefixLen = jumpRel x.addr (p.detour x.tramp) ++ nops (x.prefixLen - 5)

/-- One hook after the other. -/
inductive Stages (disasm : Disasm) (existing : Set Addr) : List Site → Image 32 → Image 32 → Prop where
  | nil : Stages disasm existing [] m m
  | cons : p.Stage disasm existing x m m' → Stages disasm existing rest m' m'' →
      Stages disasm existing (x :: rest) m m''

section
variable {p : Process} {disasm : Disasm} {existing : Set Addr} {x : Site} {s : State}

/-- A resolver that fails closed makes a stage of PlantHook. -/
theorem plant_stage (placed : p.Placed existing) (name : CStr) (resolved : State × Addr)
    (same : resolved.1.memory = s.memory) (gated : resolved.2 ≠ 0 → resolved.2 = x.addr ∧
      x.Matches s.memory.image ∧ x.Anchored s.memory.image) :
    p.Stage disasm existing x s.memory.image (p.plant disasm x.tramp name x.prefixLen resolved).memory.image := by
  let step : Step := ⟨⟨name, resolved.2, x.prefixLen, p.detour x.tramp, x.tramp⟩, p.kernel x.tramp⟩
  by_cases writes : Writes disasm resolved.1 step
  · obtain ⟨found, matched, anchored⟩ := gated writes.able.aimed
    obtain ⟨tr, mapped, memory, _⟩ := plantHook_writes writes
    have long := writes.able.long
    have short := writes.able.short
    have length := step.call.length_jump long
    constructor
    · intro a inside outside
      have unmapped := placed.fresh _ _ tr mapped a inside
      have frame := hookedMemory_outside resolved.1.memory long (a := a) (c := step.call)
        (by rwa [show step.call.addr = x.addr from found]) unmapped
      rw [← memory, same] at frame
      exact frame
    · refine .inr ⟨⟨matched, anchored, ?_⟩, ?_⟩
      · have whole := hookLenOk_instructions writes.ok
        rw [same, show step.call.addr = x.addr from found] at whole
        exact whole
      · have held := Image.read_write (resolved.1.memory.image.write tr (step.call.trampoline resolved.1.memory.image tr))
          step.call.addr step.call.jump (by omega)
        rw [length] at held
        rw [← found]
        exact memory ▸ held
  · have idle := (plantHook_idle writes).1.trans same
    have image : (p.plant disasm x.tramp name x.prefixLen resolved).memory.image = s.memory.image :=
      congrArg Memory.image idle
    exact ⟨fun a _ _ => congrFun image a, .inl image⟩

theorem installSiege_stage (placed : p.Placed existing) (disasm : Disasm) (s : State) :
    p.Stage disasm existing p.siege s.memory.image (p.installSiege disasm s).memory.image := by
  have spec := resolveTarget_spec s p.base (gTargets.head (by decide))
  refine p.plant_stage (x := p.siege) placed siegeName _ spec.1 fun found => ?_
  obtain ⟨here, matched⟩ := spec.2 found
  exact ⟨here, matchesAt_iff.mp matched, fun _ _ none => by cases none⟩

/-- The engine hooks differ in their values only. -/
theorem plantEngine_stage (placed : p.Placed existing) (x : Site) (name : CStr) (off : Addr) (anchor : BitVec 32)
    (scan : Nat) (here : engineBase + off = x.addr) (wanted : x.anchor = some (anchor, scan)) :
    p.Stage disasm existing x s.memory.image
      (p.plant disasm x.tramp name x.prefixLen (resolveEngineAbs s name off x.expect anchor scan)).memory.image := by
  obtain ⟨same, gated⟩ := resolveEngineAbs_spec s name off x.expect anchor scan
  refine plant_stage placed name _ same fun found => ?_
  obtain ⟨addr, matched, i, whole, anchored⟩ := gated found
  rw [here] at addr matched anchored
  refine ⟨addr, matchesAt_iff.mp matched, ?_⟩
  intro other length declared
  rw [wanted] at declared
  cases declared
  exact ⟨i, whole, anchored⟩

theorem installConnless_stage (placed : p.Placed existing) (on : p.noOob = false) (disasm : Disasm) (s : State) :
    p.Stage disasm existing connless s.memory.image (p.installConnless disasm s).memory.image := by
  rw [installConnless, on]
  exact plantEngine_stage placed connless connlessName 0xED64 0x0819D654 0x400 (by decide) rfl

theorem installDonedl_stage (placed : p.Placed existing) (disasm : Disasm) (s : State) :
    p.Stage disasm existing donedl s.memory.image (p.installDonedl disasm s).memory.image :=
  plantEngine_stage placed donedl donedlName 0x6AA4 0x0819B5B8 0x100 (by decide) rfl

theorem installRcon_stage (placed : p.Placed existing) (disasm : Disasm) (s : State) :
    p.Stage disasm existing rcon s.memory.image (p.installRcon disasm s).memory.image :=
  plantEngine_stage placed rcon rconName 0xEB14 0x0819D5B0 0x400 (by decide) rfl

theorem verifyTarget_memory (s : State) (t : Target) : (p.verifyTarget s t).memory = s.memory :=
  (resolveTarget_spec s p.base t).1

theorem verifyTargets_memory (s : State) (ts : List Target) : (ts.foldl p.verifyTarget s).memory = s.memory := by
  induction ts generalizing s with
  | nil => rfl
  | cons t ts ih => exact (ih _).trans (verifyTarget_memory s t)

/-- The hooks behind that of the module. -/
theorem installEngine_stages (placed : p.Placed existing) (disasm : Disasm) (s : State) :
    p.Stages disasm existing (if p.noOob then [donedl, rcon] else [connless, donedl, rcon]) s.memory.image
      (p.installRcon disasm (p.installDonedl disasm (p.installConnless disasm s))).memory.image := by
  have rest (t : State) : p.Stages disasm existing [donedl, rcon] t.memory.image
      (p.installRcon disasm (p.installDonedl disasm t)).memory.image :=
    .cons (installDonedl_stage placed disasm t) (.cons (installRcon_stage placed disasm _) .nil)
  cases oob : p.noOob with
  | true =>
    have skipped : p.installConnless disasm s = s.print .oobDisabled := if_pos oob
    rw [if_pos rfl, skipped]
    exact rest (s.print .oobDisabled)
  | false =>
    rw [if_neg Bool.false_ne_true]
    exact .cons (installConnless_stage placed oob disasm s) (rest _)

/-- InstallPatches is its hooks, one after the other. -/
theorem installPatches_stages (placed : p.Placed existing) (disasm : Disasm) (s : State) :
    p.Stages disasm existing p.sites s.memory.image (p.installPatches disasm s).memory.image := by
  have same : (gTargets.foldl p.verifyTarget (s.print (.realBase p.base p.vmMain))).memory = s.memory :=
    verifyTargets_memory _ _
  rw [installPatches, sites]
  by_cases null : p.base = 0
  · rw [if_pos null, if_pos (.inl null)]
    exact .nil
  · rw [if_neg null]
    dsimp only
    rw [← same]
    generalize gTargets.foldl p.verifyTarget (s.print (.realBase p.base p.vmMain)) = verified
    cases off : p.noHooks with
    | true =>
      rw [if_pos rfl, if_pos (.inr rfl)]
      exact .nil
    | false =>
      have armed : ¬ (p.base = 0 ∨ false = true) := not_or.mpr ⟨null, Bool.false_ne_true⟩
      rw [if_neg Bool.false_ne_true, if_neg armed, State.print_memory]
      exact .cons (installSiege_stage placed disasm verified) (installEngine_stages placed disasm _)

end

section
variable {p : Process} {disasm : Disasm} {existing : Set Addr} {xs : List Site} {m m' : Image 32}

theorem Stages.kept (stages : p.Stages disasm existing xs m m') (inside : a ∈ existing)
    (outside : ∀ x ∈ xs, ¬ x.Covers a) : m' a = m a := by
  induction stages with
  | nil => rfl
  | cons stage _ ih =>
    rw [ih fun x member => outside x (.tail _ member)]
    exact stage.kept a inside (outside _ (.head _))

/-- A changed byte lies in a hook that was written, after its checks on the memory of
its turn, and that stands since. -/
theorem Stages.changed (stages : p.Stages disasm existing xs m m')
    (apart : xs.Pairwise fun x y => ∀ a, x.Covers a → ¬ y.Covers a)
    (mapped : ∀ x ∈ xs, ∀ a, x.Covers a → a ∈ existing) (inside : a ∈ existing) (changed : m' a ≠ m a) :
    ∃ before x after turn, xs = before ++ x :: after ∧ p.Stages disasm existing before m turn ∧
      p.Stages disasm existing (x :: after) turn m' ∧ x.Arms disasm turn ∧ x.Covers a ∧
      m'.read x.addr x.prefixLen = jumpRel x.addr (p.detour x.tramp) ++ nops (x.prefixLen - 5) := by
  induction stages with
  | nil => exact absurd rfl changed
  | @cons x m next rest last stage stages ih =>
    obtain ⟨alone, later⟩ := List.pairwise_cons.mp apart
    by_cases here : next a = m a
    · obtain ⟨before, y, after, turn, split, earlier, found⟩ :=
        ih later (fun y member => mapped y (.tail _ member)) (here ▸ changed)
      exact ⟨x :: before, y, after, turn, by rw [split]; rfl, .cons stage earlier, found⟩
    · have covers : x.Covers a := by
        by_contra outside
        exact here (stage.kept a inside outside)
      rcases stage.written with same | ⟨arms, jump⟩
      · exact absurd (congrFun same a) here
      · refine ⟨[], x, rest, m, rfl, .nil, .cons stage stages, arms, covers, ?_⟩
        rw [← jump]
        apply Image.read_congr
        intro b within
        exact stages.kept (mapped x (.head _) b within) fun y member => alone y member b within

end

/-! ### What InstallPatches changes -/

section
variable {p : Process} {disasm : Disasm} {existing : Set Addr} {x y : Site} {m m' : Image 32}

/-- On the way from `m` to `m'` the hook `y` was planted, and its jump has the anchor of
`x` for its displacement, inside the scan. -/
structure Spells (p : Process) (m m' : Image 32) (y x : Site) : Prop where
  matched : y.Matches m
  planted : m'.read y.addr y.prefixLen = jumpRel y.addr (p.detour y.tramp) ++ nops (y.prefixLen - 5)
  changed : ∃ a, y.Covers a ∧ m' a ≠ m a
  spelt : ∃ anchor scan i, x.anchor = some (anchor, scan) ∧ i + 4 ≤ scan ∧
    x.addr + BitVec.ofNat 32 i = y.addr + 1 ∧ p.detour y.tramp - (y.addr + 5) = anchor

/-- Opcode and nops are no bytes of an anchor, and a prefix has room for both. -/
structure Formed (x : Site) : Prop where
  compared : x.expect.length ≤ x.prefixLen
  long : 5 < x.prefixLen
  short : x.prefixLen ≤ 64
  clean : ∀ anchor scan, x.anchor = some (anchor, scan) → ∀ byte ∈ dword anchor, byte ≠ 0xE9 ∧ byte ≠ 0x90

theorem mem_sites (member : x ∈ p.sites) : x = p.siege ∨ x = connless ∨ x = donedl ∨ x = rcon := by
  rw [sites] at member
  split at member
  · cases member
  · split at member
    · simp only [List.mem_cons, List.not_mem_nil, or_false] at member
      exact member.imp_right .inr
    · simpa only [List.mem_cons, List.not_mem_nil, or_false] using member

theorem sites_formed (member : x ∈ p.sites) : Formed x := by
  rcases mem_sites member with rfl | rfl | rfl | rfl
  · have length : p.siege.prefixLen = 9 := rfl
    have compared : p.siege.expect.length = 5 := rfl
    exact ⟨by omega, by omega, by omega, fun _ _ none => by cases none⟩
  all_goals
    refine ⟨by decide, by decide, by decide, ?_⟩
    intro anchor scan declared
    cases declared
    decide +kernel

theorem Placed.targets (placed : p.Placed existing) (member : x ∈ p.sites) : ∀ a, x.Covers a → a ∈ existing :=
  fun a covers => placed.mapped x member a (.inl covers)

/-- Until its turn a hook's own target is as it was. -/
theorem Stages.untouched (placed : p.Placed existing) (split : p.sites = before ++ x :: after)
    (stages : p.Stages disasm existing before m turn) : ∀ a, x.Covers a → turn a = m a := by
  intro a covers
  have apart := placed.apart
  rw [split, List.pairwise_append] at apart
  have member : x ∈ p.sites := split ▸ List.mem_append_right _ (.head _)
  exact stages.kept (placed.targets member a covers) fun y earlier both =>
    apart.2.2 y earlier x (.head _) a both covers

/-- First bytes that matched at the hook's turn matched before. -/
theorem Stages.matched (placed : p.Placed existing) (split : p.sites = before ++ x :: after)
    (stages : p.Stages disasm existing before m turn) (arms : x.Arms disasm turn) : x.Matches m := by
  have member : x ∈ p.sites := split ▸ List.mem_append_right _ (.head _)
  have same : turn.read x.addr x.expect.length = m.read x.addr x.expect.length :=
    Image.read_congr _ fun b within =>
      stages.untouched placed split b (Nat.lt_of_lt_of_le within (sites_formed member).compared)
  exact same.symm.trans arms.expected

/-- An anchor found where a hook was planted before is spelt by its jump. -/
theorem anchored_or_spelt (placed : p.Placed existing) (split : p.sites = before ++ x :: after)
    (stages : p.Stages disasm existing before m turn) (rest : p.Stages disasm existing (x :: after) turn m')
    (anchored : x.Anchored turn) : x.Anchored m ∨ ∃ y ∈ before, Spells p m m' y x := by
  have member : x ∈ p.sites := split ▸ List.mem_append_right _ (.head _)
  have earlier : ∀ y ∈ before, y ∈ p.sites := fun y inside => split ▸ List.mem_append_left _ inside
  cases wanted : x.anchor with
  | none => exact .inl fun _ _ declared => absurd (wanted.symm.trans declared) (by simp)
  | some pair =>
    obtain ⟨anchor, scan⟩ := pair
    obtain ⟨i, whole, found⟩ := anchored anchor scan wanted
    by_cases kept : ∀ b, Within (x.addr + BitVec.ofNat 32 i) 4 b → turn b = m b
    · left
      intro other length declared
      cases wanted.symm.trans declared
      refine ⟨i, whole, ?_⟩
      rw [← found, dwordAt, dwordAt, Image.read_congr _ kept]
    · right
      simp only [not_forall] at kept
      obtain ⟨b, word, differs⟩ := kept
      have scanned : Within x.addr scan b := by
        simp only [Within] at word ⊢
        bv_omega
      have apart := placed.apart
      rw [split, List.pairwise_append] at apart
      obtain ⟨front, y, back, _, parts, until', _, arms, covers, jump⟩ := stages.changed apart.1
        (fun y inside => placed.targets (earlier y inside))
        (placed.mapped x member b (.inr ⟨anchor, scan, wanted, scanned⟩)) differs
      have inside : y ∈ before := parts ▸ List.mem_append_right _ (.head _)
      -- what comes behind leaves the target of `y` alone
      have stands : ∀ a, y.Covers a → m' a = turn a := fun a covers =>
        rest.kept (placed.targets (earlier y inside) a covers) fun z later => apart.2.2 y inside z later a covers
      obtain ⟨_, long, short, _⟩ := sites_formed (earlier y inside)
      have padded := padded_of_read jump (by omega)
      have place := padded.overlap long short (found ▸ (sites_formed member).clean anchor scan wanted) word covers
      have sequence : p.sites = front ++ y :: (back ++ x :: after) := by
        rw [split, parts, List.append_assoc, List.cons_append]
      exact ⟨y, inside,
        { matched := until'.matched placed sequence arms
          planted := (Image.read_congr _ stands).trans jump
          changed := ⟨b, covers, stands b covers ▸ differs⟩
          spelt := ⟨anchor, scan, i, wanted, whole, place, by rw [← padded.displacement, ← place, found]⟩ }⟩

/-- No jump to a function entry at a multiple of 16 spells an anchor. -/
theorem not_spells_aligned (module : p.base.toNat % 16 = 0) (entry : (p.detour y.tramp).toNat % 16 = 0)
    (left : y ∈ p.sites) (right : x ∈ p.sites) : ¬ Spells p m m' y x := by
  rintro ⟨-, -, -, anchor, scan, i, declared, -, -, spelt⟩
  have source : y.addr.toNat % 16 = 4 := by
    rcases mem_sites left with rfl | rfl | rfl | rfl
    · have here : p.siege.addr = p.base + 0x10DB34 := rfl
      rw [here]
      bv_omega
    all_goals decide
  have low : anchor.toNat % 16 = 7 := by
    rw [← spelt]
    bv_omega
  rcases mem_sites right with rfl | rfl | rfl | rfl <;> cases declared <;> exact absurd low (by decide)

/-- A changed byte of existing memory lies in the prefix of a hook whose first bytes
matched before, whose anchor stood in its scan before or is spelt by the jump that an
earlier hook got in the same call, and whose prefix is whole instructions. -/
theorem installPatches_frame (disasm : Disasm) (p : Process) (s : State) (existing : Set Addr)
    (placed : p.Placed existing) (inside : a ∈ existing)
    (changed : (p.installPatches disasm s).memory.image a ≠ s.memory.image a) :
    ∃ before x after, p.sites = before ++ x :: after ∧ x.Covers a ∧ x.Matches s.memory.image ∧
      (x.Anchored s.memory.image ∨
        ∃ y ∈ before, Spells p s.memory.image (p.installPatches disasm s).memory.image y x) ∧
      ∃ image : Image 32, (∀ b, x.Covers b → image b = s.memory.image b) ∧
        Instructions disasm image x.addr x.prefixLen := by
  obtain ⟨before, x, after, turn, split, stages, rest, arms, covers, _⟩ :=
    (installPatches_stages placed disasm s).changed placed.apart (fun _ => placed.targets) inside changed
  exact ⟨before, x, after, split, covers, stages.matched placed split arms,
    anchored_or_spelt placed split stages rest arms.anchored, turn, stages.untouched placed split, arms.whole⟩

end

/-! ### An anchor spelt by a jump -/

/-- Every page is writable, and mappings come from the top of memory. -/
def grantingAt (tr : Addr) : Kernel := { granting with mmap := fun size => if size ≤ 4096 then some tr else none }

/-- The detour of connectionless packets lies where the jump to it holds the bytes of
the rcon anchor. -/
def speller : Process where
  vmMain := 0xF7800100
  realHandle := 0xF7800000
  moduleBase := fun _ => 0xF7800000
  noHooks := false
  noOob := false
  detour := fun
    | .connless => 0x101F4319
    | _ => 0xF7D01230
  kernel := fun
    | .connless => grantingAt 0xF7F00000
    | _ => grantingAt 0xF7F01000

/-- An engine with the anchor of connectionless packets, and without that of rcon. -/
def anchorless : State where
  memory := {
    image := Image.write (Image.write (fun _ => 0)
      0x08056D64 [0x55, 0x8B, 0xEC, 0x83, 0xEC, 0x20, 0x54, 0xD6, 0x19, 0x08])
      0x08056B14 [0x55, 0x8B, 0xEC, 0x81, 0xEC, 0x20, 0xC5, 0, 0]
    tramps := fun _ => 0 }

theorem speller_sites : speller.sites = [speller.siege, connless, donedl, rcon] := if_neg (by decide)

theorem speller_placed : speller.Placed {a | a.toNat < 0xF7F00000} where
  mapped := by
    have low (base : Addr) (n : Nat) (bound : base.toNat + n ≤ 0xF7F00000) (a : Addr) (inside : Within base n a) :
        a.toNat < 0xF7F00000 := by
      simp only [Within] at inside
      bv_omega
    intro x member a reads
    rw [speller_sites] at member
    rcases reads with covers | ⟨anchor, scan, declared, scanned⟩
    · simp only [List.mem_cons, List.not_mem_nil, or_false] at member
      rcases member with rfl | rfl | rfl | rfl <;> exact low _ _ (by decide) a covers
    · simp only [List.mem_cons, List.not_mem_nil, or_false] at member
      rcases member with rfl | rfl | rfl | rfl <;> cases declared <;> exact low _ _ (by decide) a scanned
  apart := by
    have separate (x y : Site) (order : x.addr.toNat + x.prefixLen ≤ y.addr.toNat)
        (bound : y.addr.toNat + y.prefixLen < 2 ^ 32) (a : Addr) (left : x.Covers a) : ¬ y.Covers a := by
      intro right
      simp only [Site.Covers, Within] at left right
      bv_omega
    have separate' (x y : Site) (order : y.addr.toNat + y.prefixLen ≤ x.addr.toNat)
        (bound : x.addr.toNat + x.prefixLen < 2 ^ 32) (a : Addr) (left : x.Covers a) : ¬ y.Covers a :=
      fun right => separate y x order bound a right left
    rw [speller_sites]
    simp only [List.pairwise_cons, List.forall_mem_cons, List.not_mem_nil, false_imp_iff, implies_true, and_true,
      List.Pairwise.nil]
    refine ⟨⟨?_, ?_, ?_⟩, ⟨?_, ?_⟩, separate _ _ (by decide) (by decide)⟩
    all_goals exact separate' _ _ (by decide) (by decide)
  fresh := by
    have high (page : Addr) (above : 0xF7F00000 ≤ page.toNat) (below : page.toNat + 4096 < 2 ^ 32) (size : Nat)
        (tr : Addr) (mapped : (grantingAt page).mmap size = some tr) (a : Addr) (inside : a.toNat < 0xF7F00000) :
        ¬ Within tr size a := by
      simp only [grantingAt, Option.ite_none_right_eq_some, Option.some.injEq] at mapped
      obtain ⟨small, rfl⟩ := mapped
      intro within
      simp only [Within] at within
      bv_omega
    intro tramp size tr mapped a inside
    cases tramp with
    | connless => exact high 0xF7F00000 (by decide) (by decide) size tr mapped a inside
    | siegeFind | donedl | rcon => exact high 0xF7F01000 (by decide) (by decide) size tr mapped a inside

/-- The bytes that are not 0 are those of the two prologues. -/
theorem anchorless_zero (i : Nat) (scanned : i < 1024) (code : anchorless.memory.image (rcon.addr + BitVec.ofNat 32 i) ≠ 0) :
    i < 9 ∨ 592 ≤ i ∧ i < 602 := by
  by_contra outside
  apply code
  have here : rcon.addr = 0x08056B14 := rfl
  simp only [anchorless, here]
  rw [Image.write_outside, Image.write_outside]
  all_goals
    simp only [Within, List.length_cons, List.length_nil]
    bv_omega

/-- The rcon hook is written without its anchor. -/
theorem installPatches_spelt : speller.Placed {a | a.toNat < 0xF7F00000} ∧
    (0x08056B14 : Addr) ∈ {a : Addr | a.toNat < 0xF7F00000} ∧
    (speller.installPatches prologue anchorless).memory.image 0x08056B14 ≠ anchorless.memory.image 0x08056B14 ∧
    ¬ ∃ x ∈ speller.sites, x.Covers 0x08056B14 ∧ x.Matches anchorless.memory.image ∧
      x.Anchored anchorless.memory.image := by
  refine ⟨speller_placed, by decide, by decide +kernel, ?_⟩
  rintro ⟨x, member, covers, -, anchored⟩
  rw [speller_sites] at member
  simp only [List.mem_cons, List.not_mem_nil, or_false] at member
  have absent_near : ∀ i < 9, dwordAt anchorless.memory.image (rcon.addr + BitVec.ofNat 32 i) ≠ 0x0819D5B0 := by
    decide +kernel
  have absent_far : ∀ k < 10, dwordAt anchorless.memory.image (rcon.addr + BitVec.ofNat 32 (592 + k)) ≠ 0x0819D5B0 := by
    decide +kernel
  have absent : ∀ i < 1021, dwordAt anchorless.memory.image (rcon.addr + BitVec.ofNat 32 i) ≠ 0x0819D5B0 := by
    intro i scanned word
    have bytes := read_dwordAt anchorless.memory.image (rcon.addr + BitVec.ofNat 32 i)
    have spelt : dword 0x0819D5B0 = [0xB0, 0xD5, 0x19, 0x08] := rfl
    rw [word, spelt, Image.read_succ] at bytes
    have first := (List.cons_eq_cons.mp bytes).1
    rcases anchorless_zero i (by omega) (by rw [first]; decide) with near | ⟨above, below⟩
    · exact absent_near i near word
    · obtain ⟨k, rfl⟩ := Nat.exists_eq_add_of_le above
      exact absent_far k (by omega) word
  rcases member with rfl | rfl | rfl | rfl
  · exact absurd covers (by decide)
  · exact absurd covers (by decide)
  · exact absurd covers (by decide)
  · obtain ⟨i, whole, found⟩ := anchored _ _ rfl
    exact absent i (by omega) found

theorem installPatches_frame_connless :
    ∃ before x after, speller.sites = before ++ x :: after ∧ x.Covers 0x08056D64 ∧ x.Matches anchorless.memory.image ∧
      (x.Anchored anchorless.memory.image ∨ ∃ y ∈ before, Spells speller anchorless.memory.image
        (speller.installPatches prologue anchorless).memory.image y x) ∧
      ∃ image : Image 32, (∀ b, x.Covers b → image b = anchorless.memory.image b) ∧
        Instructions prologue image x.addr x.prefixLen :=
  installPatches_frame prologue speller anchorless _ speller_placed (by decide) (by decide +kernel)

end Process

end JaplusProxy.Hooks
