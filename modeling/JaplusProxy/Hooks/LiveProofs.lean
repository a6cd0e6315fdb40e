import JaplusProxy.Hooks.ArmingProofs

/-! Hooks that are in. With its own disassembler, InstallPatches hooks every target whose
bytes and anchor are found and whose system calls are granted, whatever becomes of the
other hooks. -/
namespace JaplusProxy.Hooks
open CString ByteMemory X86Jump

theorem anchorScan_some {image : Image 32} (whole : i + 4 ≤ scan)
    (here : dwordAt image (addr + BitVec.ofNat 32 i) = anchor) :
    (anchorScan image addr anchor scan).isSome := by
  rw [anchorScan, List.find?_isSome]
  exact ⟨i, List.mem_range.mpr (by omega), decide_eq_true here⟩

theorem resolveTarget_found (s : State) (base : Addr) (t : Target)
    (compared : (if t.expectLen ≤ 6 then t.expectLen else 6) ≠ 0)
    (matched : matchesAt s.memory.image (base + t.vaddr) (t.expect.take (if t.expectLen ≤ 6 then t.expectLen else 6))) :
    (resolveTarget s base t).2 = base + t.vaddr := by
  rw [resolveTarget, if_neg (not_or.mpr ⟨compared, not_not.mpr matched⟩)]

/-- What a hook does to memory is decided by its own bytes. -/
theorem plantHook_hde32 {k : Kernel} {s : State} {c : Call} (able : Hookable k c)
    (straight : Straight s.memory.image c.addr c.prefixLen) :
    ∃ tr, k.mmap (c.prefixLen + 5) = some tr ∧ (plantHook hde32 k s c).memory = c.hookedMemory s.memory tr := by
  have long := able.long
  have ok := hookLenOk_of_instructions straight.instructions able.aimed (by omega) able.short
  have writes : Writes hde32 s ⟨c, k⟩ := ⟨ok, able⟩
  obtain ⟨tr, mapped, memory, _⟩ := plantHook_writes writes
  exact ⟨tr, mapped, memory⟩

namespace Process
variable (p : Process)

/-- The system grants the hook of a site. -/
structure Grants (x : Site) : Prop where
  aimed : x.addr ≠ 0
  detour : p.detour x.tramp ≠ 0
  mapped : ((p.kernel x.tramp).mmap (x.prefixLen + 5)).isSome
  writable : makeWritable (p.kernel x.tramp) x.addr x.prefixLen

/-- The target goes to the detour. The trampoline holds the instructions that stood there,
each of which may stand anywhere, and goes on behind them. -/
structure Live (x : Site) (image : Image 32) (m : Memory) : Prop where
  lands : landing m.image x.addr = some (p.detour x.tramp)
  moved : m.image.read (m.tramps x.tramp) x.prefixLen = image.read x.addr x.prefixLen
  straight : Straight m.image (m.tramps x.tramp) x.prefixLen
  resumes : resumption m.image (m.tramps x.tramp + BitVec.ofNat 32 x.prefixLen) =
    some (x.addr + BitVec.ofNat 32 x.prefixLen)

/-- The bytes of a hook that is in. -/
structure Wired (x : Site) (image : Image 32) (m : Memory) : Prop where
  mapped : (p.kernel x.tramp).mmap (x.prefixLen + 5) = some (m.tramps x.tramp)
  jump : m.image.read x.addr 5 = jumpRel x.addr (p.detour x.tramp)
  moved : m.image.read (m.tramps x.tramp) x.prefixLen = image.read x.addr x.prefixLen
  behind : m.image.read (m.tramps x.tramp + BitVec.ofNat 32 x.prefixLen) 5 =
    jumpRel (m.tramps x.tramp + BitVec.ofNat 32 x.prefixLen) (x.addr + BitVec.ofNat 32 x.prefixLen)

/-- The hook of the site neither covers nor maps the address. -/
def Spares (x : Site) (a : Addr) : Prop :=
  ¬ x.Covers a ∧ ∀ size tr, (p.kernel x.tramp).mmap size = some tr → ¬ Within tr size a

/-- What one hook does to memory. -/
structure Turn (x : Site) (m m' : Memory) : Prop where
  kept : ∀ a, p.Spares x a → m'.image a = m.image a
  others : ∀ t, t ≠ x.tramp → m'.tramps t = m.tramps t
  gated : m' = m ∨ x.Matches m.image
  live : x.Matches m.image → x.Anchored m.image → p.Grants x → p.Wired x m.image m'

inductive Turns : List Site → Memory → Memory → Prop where
  | nil : Turns [] m m
  | cons : p.Turn x m m' → Turns rest m' m'' → Turns (x :: rest) m m''

section
variable {p : Process} {existing : Set Addr} {x y : Site} {s : State}

/-- The bytes that the writer leaves are a hook that is in. -/
theorem wired_of_hooked {c : Call} {m : Memory} {tr : Addr} (here : c.addr = x.addr) (size : c.prefixLen = x.prefixLen)
    (aim : c.detour = p.detour x.tramp) (own : c.tramp = x.tramp) (formed : Formed x)
    (mapped : (p.kernel x.tramp).mmap (x.prefixLen + 5) = some tr)
    (fresh : ∀ a, Within tr (x.prefixLen + 5) a → ¬ x.Covers a) : p.Wired x m.image (c.hookedMemory m tr) := by
  have long : 5 ≤ x.prefixLen := Nat.le_of_lt formed.long
  have encoding := encoding_rel x.addr (p.detour x.tramp) x.prefixLen
  obtain ⟨moved, behind⟩ := jumpedImage_trampoline encoding long formed.short m.image tr fresh
  have image : (c.hookedMemory m tr).image =
      jumpedImage m.image x.addr x.prefixLen (jumpRel x.addr (p.detour x.tramp))
        (fun tr => jumpRel (tr + BitVec.ofNat 32 x.prefixLen) (x.addr + BitVec.ofNat 32 x.prefixLen)) tr := by
    rw [← here, ← size, ← aim]
    rfl
  have set : (c.hookedMemory m tr).tramps x.tramp = tr := by
    rw [← own]
    exact Function.update_self ..
  constructor
  · rw [set, mapped]
  · rw [image]
    exact Image.read_write_append _ _ (jumpRel ..) _ (by simp)
  · rw [set, image, moved]
  · rw [set, image, behind]

theorem plant_turn (placed : p.Placed existing) (member : x ∈ p.sites) (name : CStr) (resolved : State × Addr)
    (same : resolved.1.memory = s.memory)
    (gated : resolved.2 ≠ 0 → resolved.2 = x.addr ∧ x.Matches s.memory.image)
    (found : x.Matches s.memory.image → x.Anchored s.memory.image → resolved.2 = x.addr) :
    p.Turn x s.memory (p.plant hde32 x.tramp name x.prefixLen resolved).memory := by
  let step : Step := ⟨⟨name, resolved.2, x.prefixLen, p.detour x.tramp, x.tramp⟩, p.kernel x.tramp⟩
  change p.Turn x s.memory (plantHook hde32 step.kernel resolved.1 step.call).memory
  constructor
  · intro a spares
    rw [← same]
    have untouched : step.Spares a := by
      refine ⟨fun covers => spares.1 ?_, spares.2⟩
      rw [Site.Covers, ← (gated covers.1).1]
      exact covers.2
    exact plantHook_frame untouched
  · intro t other
    by_cases writes : Writes hde32 resolved.1 step
    · obtain ⟨tr, _, memory, _⟩ := plantHook_writes writes
      rw [memory, ← same]
      exact Function.update_of_ne other _ _
    · rw [(plantHook_idle writes).1, same]
  · by_cases writes : Writes hde32 resolved.1 step
    · exact .inr (gated writes.able.aimed).2
    · exact .inl ((plantHook_idle writes).1.trans same)
  · intro matched anchored grants
    have here : step.call.addr = x.addr := found matched anchored
    have formed := sites_formed member
    have able : Hookable step.kernel step.call :=
      { aimed := here ▸ grants.aimed
        detour := grants.detour
        long := Nat.le_of_lt formed.long
        short := formed.short
        mapped := grants.mapped
        writable := here ▸ grants.writable }
    have straight : Straight resolved.1.memory.image step.call.addr x.prefixLen := by
      rw [same, here]
      exact site_straight member matched
    obtain ⟨tr, mapped, memory⟩ := plantHook_hde32 able straight
    rw [memory, same]
    exact wired_of_hooked here rfl rfl rfl formed mapped fun a inside covers =>
      placed.fresh _ _ tr mapped a (placed.mapped x member a (.inl covers)) inside

/-! ### InstallPatches -/

theorem installSiege_turn (placed : p.Placed existing) (member : p.siege ∈ p.sites) (s : State) :
    p.Turn p.siege s.memory (p.installSiege hde32 s).memory := by
  have spec := resolveTarget_spec s p.base (gTargets.head (by decide))
  refine plant_turn (x := p.siege) placed member siegeName _ spec.1 (fun found => ?_) fun matched _ => ?_
  · obtain ⟨here, matched⟩ := spec.2 found
    exact ⟨here, matchesAt_iff.mp matched⟩
  · exact resolveTarget_found s p.base (gTargets.head (by decide)) (by decide) (matchesAt_iff.mpr matched)

theorem plantEngine_turn (placed : p.Placed existing) (member : x ∈ p.sites) (name : CStr) (off : Addr)
    (anchor : BitVec 32) (scan : Nat) (here : engineBase + off = x.addr) (wanted : x.anchor = some (anchor, scan))
    (size : x.expect.length = 6) :
    p.Turn x s.memory
      (p.plant hde32 x.tramp name x.prefixLen (resolveEngineAbs s name off x.expect anchor scan)).memory := by
  obtain ⟨same, gated⟩ := resolveEngineAbs_spec s name off x.expect anchor scan
  refine plant_turn placed member name _ same (fun found => ?_) fun matched anchored => ?_
  · obtain ⟨addr, matched, _⟩ := gated found
    rw [here] at addr matched
    exact ⟨addr, matchesAt_iff.mp matched⟩
  · obtain ⟨i, whole, word⟩ := anchored anchor scan wanted
    rw [← here] at word
    obtain ⟨j, found⟩ := Option.isSome_iff_exists.mp (anchorScan_some whole word)
    have accepted : ¬ (x.expect.length = 0 ∨ 8 < x.expect.length ∨
        ¬ matchesAt s.memory.image (engineBase + off) x.expect) := by
      rw [here, matchesAt_iff.mpr matched, size]
      decide
    rw [resolveEngineAbs, if_neg accepted, found, ← here]

/-- Each hook in its turn. -/
theorem installPatches_turns (placed : p.Placed existing) (s : State) :
    p.Turns p.sites s.memory (p.installPatches hde32 s).memory := by
  have same : (gTargets.foldl p.verifyTarget (s.print (.realBase p.base p.vmMain))).memory = s.memory :=
    verifyTargets_memory _ _
  rw [installPatches]
  by_cases null : p.base = 0
  · rw [if_pos null, sites, if_pos (.inl null)]
    exact .nil
  · rw [if_neg null]
    dsimp only
    rw [← same]
    generalize gTargets.foldl p.verifyTarget (s.print (.realBase p.base p.vmMain)) = verified
    cases off : p.noHooks with
    | true =>
      rw [if_pos rfl, sites, if_pos (.inr off)]
      exact .nil
    | false =>
      have listed : p.sites = p.siege :: (if p.noOob then [donedl, rcon] else [connless, donedl, rcon]) :=
        if_neg (not_or.mpr ⟨null, ne_true_of_eq_false off⟩)
      have last (member : ∀ x ∈ [donedl, rcon], x ∈ p.sites) (t : State) : p.Turns [donedl, rcon] t.memory
          (p.installRcon hde32 (p.installDonedl hde32 t)).memory :=
        .cons (plantEngine_turn placed (member _ (.head _)) donedlName 0x6AA4 0x0819B5B8 0x100 (by decide) rfl rfl)
          (.cons (plantEngine_turn placed (member _ (.tail _ (.head _))) rconName 0xEB14 0x0819D5B0 0x400
            (by decide) rfl rfl) .nil)
      rw [if_neg Bool.false_ne_true, State.print_memory, listed]
      refine .cons (installSiege_turn placed (by simp [listed]) verified) ?_
      cases oob : p.noOob with
      | true =>
        have skipped (t : State) : p.installConnless hde32 t = t.print .oobDisabled := if_pos oob
        rw [if_pos rfl, skipped]
        exact last (by simp [listed, oob]) ((p.installSiege hde32 verified).print .oobDisabled)
      | false =>
        have tried (t : State) : p.installConnless hde32 t =
            p.plant hde32 .connless connlessName 6 (resolveEngineConnless t) := if_neg (ne_true_of_eq_false oob)
        rw [if_neg Bool.false_ne_true, tried]
        exact .cons (plantEngine_turn placed (by simp [listed, oob]) connlessName 0xED64 0x0819D654 0x400
          (by decide) rfl rfl) (last (by simp [listed, oob]) _)

/-! ### Over all turns -/

/-- Both words and targets of a site outlast the turns before it. -/
theorem Turns.kept (turns : p.Turns xs m m') (spares : ∀ x ∈ xs, p.Spares x a) : m'.image a = m.image a := by
  induction turns with
  | nil => rfl
  | cons turn _ ih =>
    rw [ih fun x member => spares x (.tail _ member)]
    exact turn.kept a (spares _ (.head _))

theorem Turns.others (turns : p.Turns xs m m') (other : ∀ x ∈ xs, x.tramp ≠ t) : m'.tramps t = m.tramps t := by
  induction turns with
  | nil => rfl
  | cons turn _ ih =>
    rw [ih fun x member => other x (.tail _ member)]
    exact turn.others t (other _ (.head _)).symm

theorem Turns.split (turns : p.Turns (before ++ after) m m'') :
    ∃ m', p.Turns before m m' ∧ p.Turns after m' m'' := by
  induction before generalizing m with
  | nil => exact ⟨m, .nil, turns⟩
  | cons x before ih =>
    cases turns with
    | cons turn rest =>
      obtain ⟨m', first, second⟩ := ih rest
      exact ⟨m', .cons turn first, second⟩

/-- No word of the anchor shares a byte with the prefix of another site. -/
def Clear (image : Image 32) (y x : Site) : Prop := ∀ anchor scan i, x.anchor = some (anchor, scan) → i + 4 ≤ scan →
  dwordAt image (x.addr + BitVec.ofNat 32 i) = anchor → ∀ a, Within (x.addr + BitVec.ofNat 32 i) 4 a → ¬ y.Covers a

/-- A prefix whose first bytes are none of the anchor's. -/
theorem clear_of_bytes {image : Image 32} (matched : y.Matches image) (whole : y.expect.length = y.prefixLen)
    (foreign : ∀ anchor scan, x.anchor = some (anchor, scan) → ∀ byte ∈ dword anchor, byte ∉ y.expect) :
    Clear image y x := by
  intro anchor scan i declared _ word a inside covers
  have byte : image a ∈ dword anchor := by
    rw [← word, ← read_dwordAt]
    exact Image.mem_read image _ 4 inside
  refine foreign anchor scan declared _ byte ?_
  have held : image.read y.addr y.prefixLen = y.expect := whole ▸ matched
  exact held ▸ Image.mem_read image _ _ covers

theorem sites_tramps (p : Process) : (p.sites.map (·.tramp)).Nodup := by
  rw [sites]
  split
  · exact List.nodup_nil
  · split
    · exact show [Tramp.siegeFind, .donedl, .rcon].Nodup by decide
    · exact show [Tramp.siegeFind, .connless, .donedl, .rcon].Nodup by decide

/-- An address of existing memory changes only where a hook is put whose first bytes stood
there before the first of them. -/
theorem Turns.unmatched (turns : p.Turns xs m m') (placed : p.Placed existing) (listed : ∀ x ∈ xs, x ∈ p.sites)
    (apart : xs.Pairwise fun x y => ∀ a, x.Covers a → ¬ y.Covers a) (inside : a ∈ existing)
    (outside : ∀ x ∈ xs, x.Matches m.image → ¬ x.Covers a) : m'.image a = m.image a := by
  induction turns with
  | nil => rfl
  | @cons x m next rest last turn _ ih =>
    obtain ⟨alone, later⟩ := List.pairwise_cons.mp apart
    rcases turn.gated with rfl | matched
    · exact ih (fun y member => listed y (.tail _ member)) later fun y member => outside y (.tail _ member)
    · have kept : ∀ a ∈ existing, ¬ x.Covers a → next.image a = m.image a := fun a inside apart =>
        turn.kept a ⟨apart, fun size tr mapped => placed.fresh _ size tr mapped a inside⟩
      rw [ih (fun y member => listed y (.tail _ member)) later, kept a inside (outside x (.head _) matched)]
      intro y member present
      apply outside y (.tail _ member)
      have own := listed y (.tail _ member)
      refine Eq.trans (Image.read_congr _ fun b within => (kept b ?_ ?_).symm) present
      · exact placed.mapped y own b (.inl (Nat.lt_of_lt_of_le within (sites_formed own).compared))
      · exact fun both => alone y member b both (Nat.lt_of_lt_of_le within (sites_formed own).compared)

/-- mmap gives nothing out twice, and the module lies outside of the engine's scans. -/
structure Disjoint (p : Process) : Prop where
  separate : ∀ t u, t ≠ u → ∀ size tr size' tr', (p.kernel t).mmap size = some tr →
    (p.kernel u).mmap size' = some tr' → ∀ a, Within tr size a → ¬ Within tr' size' a
  aside : ∀ x ∈ p.sites, ∀ anchor scan, x.anchor = some (anchor, scan) → ∀ a, Within x.addr scan a →
    ¬ p.siege.Covers a

/-- An anchor does not stand in the prefix of another site. -/
theorem sites_clear {image : Image 32} (disjoint : p.Disjoint) (left : y ∈ p.sites) (right : x ∈ p.sites)
    (other : y.tramp ≠ x.tramp) (matched : y.Matches image) : Clear image y x := by
  have foreign (z : Site)
      (strange : ∀ byte ∈ z.expect, byte ∉ dword 0x0819D654 ∧ byte ∉ dword 0x0819B5B8 ∧ byte ∉ dword 0x0819D5B0)
      (anchor : BitVec 32) (scan : Nat) (declared : x.anchor = some (anchor, scan)) (byte : UInt8)
      (inside : byte ∈ dword anchor) : byte ∉ z.expect := by
    intro shared
    obtain ⟨first, second, third⟩ := strange byte shared
    rcases mem_sites right with rfl | rfl | rfl | rfl <;> cases declared
    · exact first inside
    · exact second inside
    · exact third inside
  rcases mem_sites left with rfl | rfl | rfl | rfl
  · intro anchor scan i declared whole _ a inside
    apply disjoint.aside x right anchor scan declared a
    simp only [Within] at inside ⊢
    bv_omega
  · exact clear_of_bytes matched (by decide) (foreign connless (by decide +kernel))
  · exact clear_of_bytes matched (by decide) (foreign donedl (by decide +kernel))
  · intro anchor scan i declared whole _ a inside covers
    have here : rcon.addr = 0x08056B14 := rfl
    have size : rcon.prefixLen = 9 := rfl
    simp only [Within, Site.Covers, here, size] at inside covers
    rcases mem_sites right with rfl | rfl | rfl | rfl
    · cases declared
    · cases declared
      have there : connless.addr = 0x08056D64 := rfl
      rw [there] at inside
      bv_omega
    · cases declared
      have there : donedl.addr = 0x0804EAA4 := rfl
      rw [there] at inside
      bv_omega
    · exact other rfl

/-- The anchor of a site outlasts the turns before it. -/
theorem Turns.anchored (turns : p.Turns xs m m') (placed : p.Placed existing) (disjoint : p.Disjoint)
    (listed : ∀ y ∈ xs, y ∈ p.sites) (apart : xs.Pairwise fun y z => ∀ a, y.Covers a → ¬ z.Covers a)
    (member : x ∈ p.sites) (others : ∀ y ∈ xs, y.tramp ≠ x.tramp) (anchored : x.Anchored m.image) :
    x.Anchored m'.image := by
  intro anchor scan declared
  obtain ⟨i, whole, word⟩ := anchored anchor scan declared
  refine ⟨i, whole, Eq.trans ?_ word⟩
  rw [dwordAt, dwordAt]
  congr 2
  refine Image.read_congr _ fun a within => ?_
  have scanned : Within x.addr scan a := by
    simp only [Within] at within ⊢
    bv_omega
  refine turns.unmatched placed listed apart (placed.mapped x member a (.inr ⟨anchor, scan, declared, scanned⟩)) ?_
  intro y early matched
  exact sites_clear disjoint (listed y early) member (others y early) matched anchor scan i declared whole word a within

theorem Wired.live {image : Image 32} {m : Memory} (wired : p.Wired x image m) (member : x ∈ p.sites)
    (matched : x.Matches image) : p.Live x image m where
  lands := landing_jumpRel wired.jump
  moved := wired.moved
  straight := (site_straight member matched).move wired.moved
  resumes := resumption_jumpRel wired.behind

/-- A hook outlasts the turns behind it. -/
theorem Wired.kept {image : Image 32} (wired : p.Wired x image m) (turns : p.Turns after m m')
    (member : x ∈ p.sites) (placed : p.Placed existing) (disjoint : p.Disjoint) (listed : ∀ y ∈ after, y ∈ p.sites)
    (others : ∀ y ∈ after, y.tramp ≠ x.tramp) (apart : ∀ y ∈ after, ∀ a, x.Covers a → ¬ y.Covers a) :
    p.Wired x image m' := by
  have long := (sites_formed member).long
  have same : m'.tramps x.tramp = m.tramps x.tramp := turns.others others
  have target (a : Addr) (covers : x.Covers a) : m'.image a = m.image a :=
    turns.kept fun y later => ⟨apart y later a covers, fun size tr mapped =>
      placed.fresh _ size tr mapped a (placed.mapped x member a (.inl covers))⟩
  have mapping (a : Addr) (inside : Within (m.tramps x.tramp) (x.prefixLen + 5) a) : m'.image a = m.image a :=
    turns.kept fun y later => ⟨
      fun covers => placed.fresh _ _ _ wired.mapped a (placed.mapped y (listed y later) a (.inl covers)) inside,
      fun size tr mapped => disjoint.separate _ _ (others y later).symm _ _ size tr wired.mapped mapped a inside⟩
  constructor
  · rw [same, wired.mapped]
  · rw [← wired.jump]
    exact Image.read_congr _ fun a within => target a (Nat.lt_trans within long)
  · rw [same, ← wired.moved]
    exact Image.read_congr _ fun a within => mapping a (Nat.lt_of_lt_of_le within (Nat.le_add_right ..))
  · rw [same, ← wired.behind]
    refine Image.read_congr _ fun a within => mapping a ?_
    have short := (sites_formed member).short
    simp only [Within] at within ⊢
    bv_omega

/-- A hook whose bytes and anchor stand in memory, and whose system calls are granted, is in
after InstallPatches, whatever becomes of the other hooks. -/
theorem installPatches_live (p : Process) (s : State) (existing : Set Addr) (placed : p.Placed existing)
    (disjoint : p.Disjoint) (member : x ∈ p.sites) (matched : x.Matches s.memory.image)
    (anchored : x.Anchored s.memory.image) (grants : p.Grants x) :
    p.Live x s.memory.image (p.installPatches hde32 s).memory := by
  obtain ⟨before, after, split⟩ := List.append_of_mem member
  have turns := installPatches_turns placed s
  have apart := placed.apart
  have tramps := sites_tramps p
  rw [split] at turns apart tramps
  rw [List.map_append, List.map_cons, List.nodup_append] at tramps
  obtain ⟨first, own, distinct⟩ := tramps
  obtain ⟨ahead, onward, between⟩ := List.pairwise_append.mp apart
  obtain ⟨turn, earlier, rest⟩ := turns.split
  have listed : ∀ y ∈ before, y ∈ p.sites := fun y early => split ▸ List.mem_append_left _ early
  cases rest with
  | @cons _ _ next _ _ here later =>
    have untouched (a : Addr) (covers : x.Covers a) : turn.image a = s.memory.image a :=
      earlier.unmatched placed listed ahead (placed.mapped x member a (.inl covers)) fun y early _ both =>
        between y early x (.head _) a both covers
    have present : x.Matches turn.image := by
      refine Eq.trans (Image.read_congr _ fun a within => untouched a ?_) matched
      exact Nat.lt_of_lt_of_le within (sites_formed member).compared
    have spared := earlier.anchored placed disjoint listed ahead member
      (fun y early => distinct _ (List.mem_map_of_mem early) _ (.head _)) anchored
    have wired := here.live present spared grants
    have wired' : p.Wired x s.memory.image next :=
      ⟨wired.mapped, wired.jump, wired.moved.trans (Image.read_congr _ untouched), wired.behind⟩
    refine (wired'.kept later member placed disjoint ?_ ?_ ?_).live member matched
    · exact fun y late => split ▸ List.mem_append_right _ (.tail _ late)
    · exact fun y late same => (List.nodup_cons.mp own).1 (same ▸ List.mem_map_of_mem late)
    · exact (List.pairwise_cons.mp onward).1

def page : Tramp → Nat
  | .siegeFind => 0
  | .connless => 1
  | .donedl => 2
  | .rcon => 3

theorem page_inj (same : page t = page u) : t = u := by
  cases t <;> cases u <;> first | rfl | cases same

theorem page_lt (t : Tramp) : page t < 4 := by
  cases t <;> decide

/-- The game module at 0xF7800000, and a page above it for each trampoline. -/
def loaded : Process where
  vmMain := 0xF7800100
  realHandle := 0xF7800000
  moduleBase := fun _ => 0xF7800000
  noHooks := false
  noOob := false
  detour := fun _ => 0xF7D01230
  kernel := fun t => grantingAt (0xF7F00000 + BitVec.ofNat 32 (4096 * page t))

theorem loaded_mmap (mapped : (loaded.kernel t).mmap size = some tr) : size ≤ 4096 ∧
    tr = 0xF7F00000 + BitVec.ofNat 32 (4096 * page t) := by
  simp only [loaded, grantingAt, Option.ite_none_right_eq_some, Option.some.injEq] at mapped
  exact ⟨mapped.1, mapped.2.symm⟩

theorem loaded_sites : loaded.sites = speller.sites := by
  rw [speller_sites]
  exact if_neg (by decide)

theorem loaded_placed : loaded.Placed {a | a.toNat < 0xF7F00000} where
  mapped := loaded_sites ▸ speller_placed.mapped
  apart := loaded_sites ▸ speller_placed.apart
  fresh := by
    intro t size tr mapped a inside within
    obtain ⟨small, rfl⟩ := loaded_mmap mapped
    have bound := page_lt t
    change a.toNat < 0xF7F00000 at inside
    simp only [Within] at within
    bv_omega

theorem loaded_disjoint : loaded.Disjoint where
  separate := by
    intro t u other size tr size' tr' mapped mapped' a within within'
    obtain ⟨small, rfl⟩ := loaded_mmap mapped
    obtain ⟨small', rfl⟩ := loaded_mmap mapped'
    have bound := page_lt t
    have bound' := page_lt u
    have differ : page t ≠ page u := fun same => other (page_inj same)
    simp only [Within] at within within'
    bv_omega
  aside := by
    intro x member anchor scan declared a scanned covers
    have here : loaded.siege.addr = 0xF790DB34 := by decide
    have size : loaded.siege.prefixLen = 9 := rfl
    simp only [Site.Covers, here, size, Within] at covers scanned
    have low : x.addr.toNat + scan < 0xF7800000 := by
      rcases mem_sites member with rfl | rfl | rfl | rfl <;> cases declared <;> decide
    bv_omega

/-- An engine with SVC_RemoteCommand and its anchor only. -/
def rconOnly : State where
  memory := {
    image := Image.write (fun _ => 0) 0x08056B14
      [0x55, 0x8B, 0xEC, 0x81, 0xEC, 0x20, 0xC5, 0, 0, 0x68, 0xB0, 0xD5, 0x19, 0x08]
    tramps := fun _ => 0 }

theorem installPatches_live_rcon :
    loaded.Live rcon rconOnly.memory.image (loaded.installPatches hde32 rconOnly).memory := by
  refine installPatches_live loaded rconOnly _ loaded_placed loaded_disjoint ?_ ?_ ?_ ?_
  · rw [loaded_sites, speller_sites]
    simp
  · exact show rconOnly.memory.image.read 0x08056B14 6 = [0x55, 0x8B, 0xEC, 0x81, 0xEC, 0x20] by decide +kernel
  · intro anchor scan declared
    cases declared
    exact ⟨10, by decide, by decide +kernel⟩
  · exact { aimed := by decide, detour := by decide, mapped := by decide, writable := by decide }

end

end Process

end JaplusProxy.Hooks
