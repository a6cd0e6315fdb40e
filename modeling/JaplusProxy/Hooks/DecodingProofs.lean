import Mathlib.Data.Bool.AllAny
import JaplusProxy.Hooks.Hde32Proofs

/-! Round trip of the disassembler: the fields it fills spell the bytes it took, behind the
prefixes. ENTER alone loses a byte, since both its immediates go to one union. -/
namespace JaplusProxy.Hooks
open CString ByteMemory

/-! ### Flags -/

/-- The flags of immediates, and of an overlong instruction. -/
def immMask : BitVec 32 := 0x481c

/-- The flags of operands. -/
def operandMask : BitVec 32 := 0xe3

theorem flag_part (flags mask : BitVec 32) {flag : BitVec 32} (part : mask &&& flag = flag) :
    flags &&& flag = (flags &&& mask) &&& flag := by
  rw [BitVec.and_assoc, part]

theorem flag_clear {flags mask : BitVec 32} (clear : flags &&& mask = 0) (flag : BitVec 32)
    (part : mask &&& flag = flag) : flags &&& flag = 0 := by
  rw [flag_part flags mask part, clear]
  exact BitVec.zero_and

theorem flag_or {a mask : BitVec 32} (clear : a &&& mask = 0) (flag : BitVec 32) (part : mask &&& flag = flag)
    (b : BitVec 32) : (a ||| b) &&& flag = b &&& flag := by
  rw [BitVec.and_or_distrib_right, flag_clear clear flag part]
  exact BitVec.zero_or

theorem flag_set (flags flag : BitVec 32) (some : flag ≠ 0) : (flags ||| flag) &&& flag ≠ 0 := by
  have absorbed : (flags ||| flag) &&& flag = flag := by
    apply BitVec.eq_of_getElem_eq
    intro i inside
    simpa using Or.inr
  rwa [absorbed]

/-! ### The encoding -/

namespace Hde32s
variable (hs : Hde32s)

def shape : BitVec 32 := hs.flags &&& shapeMask

def opcodes : Bytes := if hs.opcode = 0x0f then [hs.opcode, hs.opcode2] else [hs.opcode]

def dispLen (shape : BitVec 32) : Nat :=
  if shape &&& fDisp8 ≠ 0 then 1 else if shape &&& fDisp16 ≠ 0 then 2 else if shape &&& fDisp32 ≠ 0 then 4 else 0

def immLen (shape : BitVec 32) : Nat :=
  if shape &&& fImm32 ≠ 0 then 4 else if shape &&& fImm16 ≠ 0 then 2 else if shape &&& fImm8 ≠ 0 then 1 else 0

/-- A selector lies in `disp`. -/
def farLen (shape : BitVec 32) : Nat :=
  if shape &&& f2Imm16 ≠ 0 ∨ shape &&& fImm32 ≠ 0 ∧ shape &&& fImm16 ≠ 0 then 2 else 0

def operands : Bytes :=
  (if hs.shape &&& fModrm ≠ 0 then [hs.modrm] else []) ++ (if hs.shape &&& fSib ≠ 0 then [hs.sib] else []) ++
    hs.disp.take (dispLen hs.shape)

def immediates : Bytes := hs.imm.take (immLen hs.shape) ++ hs.disp.take (farLen hs.shape)

/-- The instruction behind its prefixes, from the fields. -/
def encoding : Bytes := hs.opcodes ++ hs.operands ++ hs.immediates

/-- The fields that are filled before the operands. -/
def header : Bytes := [hs.pRep, hs.pLock, hs.pSeg, hs.p66, hs.p67, hs.opcode, hs.opcode2]

theorem shape_raise (clean : Clean errors) : (hs.raise errors).shape = hs.shape := by
  rw [shape, raise, BitVec.and_or_distrib_right, clean]
  exact BitVec.or_zero

theorem shape_clear (clear : hs.shape = 0) : hs.flags &&& immMask = 0 := flag_clear clear _ rfl

end Hde32s

/-- The rest of an instruction does not depend on them. -/
theorem header_inj {hs hs' : Hde32s} (same : hs'.header = hs.header) :
    hs'.opcodes = hs.opcodes ∧ hs'.opcode = hs.opcode ∧ ∀ bytes, Recorded bytes hs → Recorded bytes hs' := by
  simp only [Hde32s.header, List.cons.injEq, and_true] at same
  obtain ⟨rep, lock, seg, operandSize, addressSize, opcode, opcode2⟩ := same
  refine ⟨by simp only [Hde32s.opcodes, opcode, opcode2], opcode, fun bytes recorded => ?_⟩
  exact ⟨rep.trans recorded.rep, lock.trans recorded.lock, seg.trans recorded.seg,
    operandSize.trans recorded.operandSize, addressSize.trans recorded.addressSize⟩

theorem recorded_nil : Recorded [] {} := ⟨rfl, rfl, rfl, rfl, rfl⟩

theorem take_store (union bytes : Bytes) : (store union bytes).take bytes.length = bytes := List.take_left

namespace Cursor

/-! ### Operands -/

/-- The bytes from `p` up to `q`. -/
def Spelt (code : Code) (p q : Nat) (bytes : Bytes) : Prop :=
  q = p + bytes.length ∧ fetch code p bytes.length = some bytes

theorem spelt_of_fetch {p q : Nat} (found : fetch code p k = some bytes) (stop : q = p + k) : Spelt code p q bytes := by
  rw [Spelt, length_fetch found]
  exact ⟨stop, found⟩

theorem Spelt.append {p q r : Nat} (first : Spelt code p q a) (second : Spelt code q r b) :
    Spelt code p r (a ++ b) := by
  obtain ⟨rfl, found₁⟩ := first
  obtain ⟨rfl, found₂⟩ := second
  exact spelt_of_fetch (fetch_append found₁ found₂) (Nat.add_assoc ..)

/-- What the part behind the opcode took and what it leaves. -/
structure Operated (code : Code) (s t : Cursor) : Prop where
  spelt : Spelt code s.p t.p t.hs.operands
  header : t.hs.header = s.hs.header
  clear : t.hs.flags &&& immMask = 0
  known : t.cflags ∈ controls
  enter : t.cflags = 6 ↔ s.cflags = 6
  /-- `disp` is free for a selector. -/
  free : t.cflags &&& cImm16 ≠ 0 → t.hs.shape = 0

/-- The shape of an operand in memory or in a register. -/
def operandShape (sib : Bool) (size : Nat) : BitVec 32 := fModrm ||| (if sib then fSib else 0) ||| dispFlag size

theorem operandShape_spec : ∀ size ∈ [0, 1, 2, 4], ∀ sib,
    Hde32s.dispLen (operandShape sib size) = size ∧ operandShape sib size &&& fModrm ≠ 0 ∧
      (operandShape sib size &&& fSib ≠ 0 ↔ sib = true) ∧ operandShape sib size &&& immMask = 0 ∧
      dispFlag size &&& shapeMask = dispFlag size := by
  decide +kernel

theorem take_stored {p : Nat} (found : fetch code p size = some bytes) (union : Bytes) :
    (store union bytes).take size = bytes := by
  rw [← length_fetch found]
  exact take_store union bytes

/-- A displacement behind the ModR/M byte, and the SIB byte where there is one. -/
theorem storeDisp_operands (ran : storeDisp code t size (dispFlag size) = some u) (member : size ∈ [0, 1, 2, 4])
    (sib : Bool) (shape : t.hs.shape = fModrm ||| if sib then fSib else 0) :
    u.hs.operands = t.hs.modrm :: (if sib then [t.hs.sib] else []) ++ u.hs.disp.take size ∧
      fetch code t.p size = some (u.hs.disp.take size) ∧ u.hs.flags &&& immMask = 0 ∧ u.p = t.p + size := by
  obtain ⟨len, modrm, sibs, clear, part⟩ := operandShape_spec size member sib
  obtain ⟨bytes, found, stored⟩ := storeDisp_some.mp ran
  have taken : u.hs.disp.take size = bytes := by
    rw [← stored]
    exact take_stored found t.hs.disp
  have shaped : u.hs.shape = operandShape sib size := by
    rw [← stored, Hde32s.shape, BitVec.and_or_distrib_right, part]
    exact congrArg (· ||| dispFlag size) shape
  have disjoint : u.hs.flags &&& immMask = 0 := by
    rw [flag_part u.hs.flags shapeMask rfl, ← clear]
    exact congrArg (· &&& immMask) shaped
  refine ⟨?_, taken ▸ found, disjoint, by rw [← stored]⟩
  rw [Hde32s.operands, shaped, len, if_pos modrm]
  simp only [sibs]
  rw [← stored]
  rfl

theorem testFlags_spec (known : s.cflags ∈ controls) (test : s.c = 0xf6 ∨ s.c = 0xf7 → s.cflags = 1)
    (modrm : s.cflags &&& cModrm ≠ 0) : testFlags s ∈ controls ∧ testFlags s &&& cImm16 = 0 := by
  have free : ∀ c ∈ controls, c &&& cModrm ≠ 0 → c ∈ controls ∧ c &&& cImm16 = 0 :=
    List.all_iff_forall_prop.mp (by decide)
  rw [testFlags]
  split
  · split
    · rename_i byte
      rw [test (.inl byte)]
      decide
    · split
      · rename_i word
        rw [test (.inr word)]
        decide
      · exact free _ known modrm
  · exact free _ known modrm

theorem not_enter : ∀ c ∈ controls, c &&& cModrm ≠ 0 ∨ c &&& cImm16 = 0 → c ≠ 6 :=
  List.all_iff_forall_prop.mp (by decide)

theorem storeDisp_kept (ran : storeDisp code s size flags = some t) :
    t.cflags = s.cflags ∧ t.hs.header = s.hs.header := by
  obtain ⟨bytes, _, rfl⟩ := storeDisp_some.mp ran
  exact ⟨rfl, rfl⟩

/-- From the ModR/M byte at `p` to the end of the displacement. -/
theorem address_spelt {p : Nat} {mod c : UInt8} (shape : s.hs.shape = fModrm) (byte : s.hs.modrm = c)
    (here : code p = some c) (behind : s.p = p + 1) (ran : address code s mod = some t) :
    Spelt code p t.p t.hs.operands ∧ t.hs.flags &&& immMask = 0 ∧ t.cflags = testFlags s ∧
      t.hs.header = s.hs.header := by
  have first : Spelt code p s.p [c] := spelt_of_fetch (fetch_one here) behind
  obtain ⟨next, ahead, rest⟩ := Option.bind_eq_some_iff.mp ran
  dsimp only at rest
  split at rest
  · have sized : (if next &&& 7 = 5 ∧ mod &&& 1 = 0 then 4 else dispSize s.pref mod s.hs.modrmRm) ∈ [0, 1, 2, 4] := by
      split
      · decide
      · exact dispSize_mem ..
    have shaped : (s.hs.flags ||| fSib) &&& shapeMask = fModrm ||| fSib := by
      rw [BitVec.and_or_distrib_right]
      exact congrArg (· ||| fSib) shape
    obtain ⟨operands, found, clear, stop⟩ := storeDisp_operands rest sized true shaped
    have second : Spelt code s.p (s.p + 1) [next] := spelt_of_fetch (fetch_one ahead) rfl
    refine ⟨?_, clear, storeDisp_kept rest⟩
    rw [operands, byte]
    exact first.append (second.append (spelt_of_fetch found stop))
  · have shaped : s.hs.shape = fModrm ||| if false then fSib else 0 := shape
    obtain ⟨operands, found, clear, stop⟩ := storeDisp_operands rest (dispSize_mem ..) false shaped
    refine ⟨?_, clear, storeDisp_kept rest⟩
    rw [operands, byte]
    exact first.append (spelt_of_fetch found stop)

theorem operands_none {hs : Hde32s} (none : hs.shape &&& operandMask = 0) : hs.operands = [] := by
  have clear := flag_clear none
  simp [Hde32s.operands, Hde32s.dispLen, clear fModrm rfl, clear fSib rfl, clear fDisp8 rfl, clear fDisp16 rfl,
    clear fDisp32 rfl]

theorem operands_blank {hs : Hde32s} (blank : hs.shape = 0) : hs.operands = [] :=
  operands_none (by rw [blank]; exact BitVec.zero_and)

theorem withModrm_shape {hs : Hde32s} {c : UInt8} (blank : hs.shape = 0) (clean : Clean errors) :
    ((withModrm hs c).raise errors).shape = fModrm := by
  rw [Hde32s.shape_raise _ clean, Hde32s.shape, withModrm, BitVec.and_or_distrib_right]
  exact congrArg (· ||| fModrm) blank

theorem operand_operated (known : s.cflags ∈ controls) (test : s.c = 0xf6 ∨ s.c = 0xf7 → s.cflags = 1)
    (blank : s.hs.shape = 0) (ran : operand code s = some t) : Operated code s t := by
  rw [operand] at ran
  split at ran
  · rename_i modrm
    obtain ⟨c, here, rest⟩ := Option.bind_eq_some_iff.mp ran
    obtain ⟨mod, errors, clean, checked⟩ := checkModrm_form s c
    rw [checked] at rest
    obtain ⟨spelt, clear, cflags, header⟩ := address_spelt (withModrm_shape blank clean) rfl here rfl rest
    let u : Cursor := { s with hs := (withModrm s.hs c).raise errors, p := s.p + 1 }
    obtain ⟨known', free⟩ : testFlags u ∈ controls ∧ testFlags u &&& cImm16 = 0 := testFlags_spec known test modrm
    rw [← cflags] at known' free
    exact {
      spelt := spelt
      header := header
      clear := clear
      known := known'
      enter := iff_of_false (not_enter _ known' (.inr free)) (not_enter _ known (.inl modrm))
      free := fun wide => absurd free wide }
  · cases ran
    obtain ⟨errors, clean, raised⟩ := s.hs.fail_raise fErrorLock (decide (s.pref &&& preLock ≠ 0)) rfl
    have shape := (s.hs.shape_raise clean).trans blank
    rw [raised]
    exact {
      spelt := by
        rw [operands_blank shape]
        exact ⟨rfl, rfl⟩
      header := rfl
      clear := Hde32s.shape_clear _ shape
      known := known
      enter := Iff.rfl
      free := fun _ => shape }

/-! ### Immediates -/

/-- Which immediates the flags of an opcode ask for. -/
def asks (cflags : UInt8) : List Bool :=
  [cImmP66, cImm16, cImm8, cRel32, cRel8].map fun flag => decide (cflags &&& flag ≠ 0)

theorem controls_ask : ∀ cflags ∈ controls, asks cflags ∈ [
    [false, false, false, false, false], [false, false, true, false, false], [false, true, false, false, false],
    [false, true, true, false, false], [true, false, false, false, false], [true, true, false, false, false],
    [false, false, false, false, true], [true, false, false, true, false]] :=
  List.all_iff_forall_prop.mp (by decide)

/-- One immediate, and the flags it sets. -/
def immediateShapes : List (Nat × BitVec 32) := [
  (1, fImm8), (2, fImm16), (4, fImm32), (1, fImm8 ||| fRelative), (2, fImm16 ||| fRelative), (4, fImm32 ||| fRelative)]

/-- An offset, and the selector behind it, which goes to `disp`. -/
def farShapes : List (Nat × BitVec 32 × BitVec 32) := [(2, fImm16, f2Imm16), (4, fImm32, fImm16)]

section
variable {code : Code} {s : Cursor} {size : Nat} {flags : BitVec 32}

/-- A store leaves the control flags, and adds its own flags. -/
theorem storeImm_bind {f g : Cursor → Option Cursor}
    (same : ∀ t, t.cflags = s.cflags → t.hs.flags = s.hs.flags ||| flags → f t = g t) :
    (storeImm code s size flags).bind f = (storeImm code s size flags).bind g := by
  cases found : fetch code s.p size with
  | none => simp [storeImm, found]
  | some bytes =>
    simp only [storeImm, found, Option.bind_eq_bind, Option.bind_some]
    exact same _ rfl rfl

theorem storeImm_skip {f : Cursor → Option Cursor} (skips : ∀ t, t.cflags = s.cflags → f t = some t) :
    (storeImm code s size flags).bind f = storeImm code s size flags :=
  (storeImm_bind fun t same _ => skips t same).trans (Option.bind_fun_some _)

theorem storeDisp_skip {f : Cursor → Option Cursor} (skips : ∀ t, t.cflags = s.cflags → f t = some t) :
    (storeDisp code s size flags).bind f = storeDisp code s size flags := by
  cases found : fetch code s.p size with
  | none => simp [storeDisp, found]
  | some bytes =>
    simp only [storeDisp, found, Option.bind_eq_bind, Option.bind_some]
    exact skips _ rfl

theorem relative_skip (near : s.cflags &&& cRel32 = 0) (short : s.cflags &&& cRel8 = 0) :
    relative code s = some s := by
  simp [relative, near, short]

theorem imm8_skip (none : s.cflags &&& cImm8 = 0) : imm8 code s = some s := if_pos none

theorem imm16_skip (none : s.cflags &&& cImm16 = 0) : imm16 code s = some s := if_pos none

theorem immP66_skip (none : s.cflags &&& cImmP66 = 0) : immP66 code s = some s := if_pos none

end

/-- Without the jump to `rel32_ok`, one after the other. -/
theorem immediates_plain (code : Code) (free : s.cflags &&& cRel32 = 0) : immediates code s =
    (immP66 code s).bind fun t => (imm16 code t).bind fun t => (imm8 code t).bind (relative code) :=
  if_neg fun both => both.2 free

theorem immediates_none (code : Code) (modrm : s.cflags = cModrm) : immediates code s = some s := by
  rw [immediates_plain code (by rw [modrm]; decide), immP66_skip (by rw [modrm]; decide), Option.bind_some,
    imm16_skip (by rw [modrm]; decide), Option.bind_some, imm8_skip (by rw [modrm]; decide), Option.bind_some]
  exact relative_skip (by rw [modrm]; decide) (by rw [modrm]; decide)

theorem imm16_plain (code : Code) (wide : s.cflags &&& cImm16 ≠ 0) (clear : s.hs.flags &&& immMask = 0) :
    imm16 code s = storeImm code s 2 fImm16 := by
  simp only [imm16, if_neg wide, flag_clear clear fImm16 rfl, flag_clear clear fImm32 rfl, ne_eq, not_true_eq_false,
    if_false]

theorem immediates_enter (code : Code) (enter : s.cflags = 6) (clear : s.hs.flags &&& immMask = 0) :
    immediates code s = (storeImm code s 2 fImm16).bind fun t => storeImm code t 1 fImm8 := by
  have flags : (6 : UInt8) &&& cImmP66 = 0 ∧ (6 : UInt8) &&& cImm16 ≠ 0 ∧ (6 : UInt8) &&& cImm8 ≠ 0 ∧
      (6 : UInt8) &&& cRel32 = 0 ∧ (6 : UInt8) &&& cRel8 = 0 := by decide
  rw [← enter] at flags
  obtain ⟨p66, i16, i8, r32, r8⟩ := flags
  rw [immediates_plain code r32, immP66_skip p66, Option.bind_some, imm16_plain code i16 clear]
  refine storeImm_bind fun t same _ => ?_
  rw [imm8, if_neg (same ▸ i8)]
  exact storeImm_skip fun u kept => relative_skip (kept ▸ same ▸ r32) (kept ▸ same ▸ r8)

/-- One immediate, whose size depends on the prefix. -/
theorem immediates_one (near : s.cflags &&& cRel32 = 0) (short : s.cflags &&& cRel8 = 0)
    (word : s.cflags &&& cImm16 = 0) (byte : s.cflags &&& cImm8 = 0)
    (first : immP66 code s = storeImm code s size flags) : immediates code s = storeImm code s size flags := by
  rw [immediates_plain code near, first]
  refine storeImm_skip fun t same => ?_
  rw [imm16_skip (same ▸ word), Option.bind_some, imm8_skip (same ▸ byte)]
  exact relative_skip (same ▸ near) (same ▸ short)

/-- An offset, and then a selector. -/
theorem immediates_far (near : s.cflags &&& cRel32 = 0) (short : s.cflags &&& cRel8 = 0)
    (word : s.cflags &&& cImm16 ≠ 0) (byte : s.cflags &&& cImm8 = 0)
    (first : immP66 code s = storeImm code s size flags)
    (second : ∀ t : Cursor, t.hs.flags = s.hs.flags ||| flags → t.cflags &&& cImm16 ≠ 0 →
      imm16 code t = storeDisp code t 2 next) :
    immediates code s = (storeImm code s size flags).bind fun t => storeDisp code t 2 next := by
  rw [immediates_plain code near, first]
  refine storeImm_bind fun t same set => ?_
  rw [second t set (same ▸ word)]
  refine storeDisp_skip fun u kept => ?_
  rw [imm8_skip (kept ▸ same ▸ byte)]
  exact relative_skip (kept ▸ same ▸ near) (kept ▸ same ▸ short)

theorem immediates_cases (s : Cursor) (known : s.cflags ∈ controls) (clear : s.hs.flags &&& immMask = 0) :
    (∀ code, immediates code s = some s) ∨
      (∃ size flags, (size, flags) ∈ immediateShapes ∧ ∀ code, immediates code s = storeImm code s size flags) ∨
      (∃ size flags next, (size, flags, next) ∈ farShapes ∧ s.cflags &&& cImm16 ≠ 0 ∧
        ∀ code, immediates code s = (storeImm code s size flags).bind fun t => storeDisp code t 2 next) ∨
      s.cflags = 6 := by
  have asked := controls_ask s.cflags known
  have clear₃₂ : s.hs.flags &&& fImm32 = 0 := flag_clear clear _ rfl
  simp only [List.mem_cons, List.not_mem_nil, or_false, asks, List.map_cons, List.map_nil, List.cons.injEq, and_true,
    decide_eq_true_eq, decide_eq_false_iff_not, not_not] at asked
  rcases asked with ask | ask | ask | ask | ask | ask | ask | ask
  all_goals obtain ⟨p66, i16, i8, r32, r8⟩ := ask
  · -- nothing
    left
    intro code
    simp only [immediates_plain code r32, immP66_skip p66, imm16_skip i16, imm8_skip i8, relative_skip r32 r8,
      Option.bind_some]
  · -- a byte
    right; left
    refine ⟨1, fImm8, by decide, fun code => ?_⟩
    simp only [immediates_plain code r32, immP66_skip p66, imm16_skip i16, Option.bind_some, imm8, if_neg i8]
    exact storeImm_skip fun t same => relative_skip (same ▸ r32) (same ▸ r8)
  · -- a word
    right; left
    refine ⟨2, fImm16, by decide, fun code => ?_⟩
    rw [immediates_plain code r32, immP66_skip p66, Option.bind_some, imm16_plain code i16 clear]
    refine storeImm_skip fun t same => ?_
    rw [imm8_skip (same ▸ i8)]
    exact relative_skip (same ▸ r32) (same ▸ r8)
  · -- ENTER
    right; right; right
    have enter : ∀ c ∈ controls, c &&& cImm16 ≠ 0 → c &&& cImm8 ≠ 0 → c = 6 :=
      List.all_iff_forall_prop.mp (by decide)
    exact enter s.cflags known i16 i8
  · -- as wide as the operands
    right; left
    by_cases narrow : s.pref &&& pre66 = 0
    · exact ⟨4, fImm32, by decide, fun code => immediates_one r32 r8 i16 i8 (by simp [immP66, p66, narrow])⟩
    · exact ⟨2, fImm16, by decide, fun code => immediates_one r32 r8 i16 i8 (by simp [immP66, p66, narrow])⟩
  · -- a far pointer
    right; right; left
    by_cases narrow : s.pref &&& pre66 = 0
    · refine ⟨4, fImm32, fImm16, by decide, i16, fun code =>
        immediates_far r32 r8 i16 i8 (by simp [immP66, p66, narrow]) fun t set asked => ?_⟩
      have wide := flag_set s.hs.flags fImm32 (by decide)
      simp only [imm16, if_neg asked, set, if_pos wide]
    · refine ⟨2, fImm16, f2Imm16, by decide, i16, fun code =>
        immediates_far r32 r8 i16 i8 (by simp [immP66, p66, narrow]) fun t set asked => ?_⟩
      have short := flag_set s.hs.flags fImm16 (by decide)
      have wide : (s.hs.flags ||| fImm16) &&& fImm32 = 0 := by
        rw [BitVec.and_or_distrib_right, clear₃₂]
        rfl
      simp only [imm16, if_neg asked, set, wide, ne_eq, not_true_eq_false, if_false, if_pos short]
  · -- a short jump
    right; left
    refine ⟨1, fImm8 ||| fRelative, by decide, fun code => ?_⟩
    simp only [immediates_plain code r32, immP66_skip p66, imm16_skip i16, imm8_skip i8, Option.bind_some]
    simp [relative, r32, r8]
  · -- a near jump
    right; left
    by_cases narrow : s.pref &&& pre66 = 0
    · refine ⟨4, fImm32 ||| fRelative, by decide, fun code => ?_⟩
      simp [immediates, p66, r32, narrow]
    · refine ⟨2, fImm16 ||| fRelative, by decide, fun code => ?_⟩
      simp [immediates, p66, r32, narrow]

/-! ### The fields of immediates -/

theorem immLen_or {a : BitVec 32} (clear : a &&& immMask = 0) (b : BitVec 32) :
    Hde32s.immLen (a ||| b) = Hde32s.immLen b := by
  simp only [Hde32s.immLen, flag_or clear fImm32 rfl, flag_or clear fImm16 rfl,
    flag_or clear fImm8 rfl]

theorem farLen_or {a : BitVec 32} (clear : a &&& immMask = 0) (b : BitVec 32) :
    Hde32s.farLen (a ||| b) = Hde32s.farLen b := by
  simp only [Hde32s.farLen, flag_or clear fImm32 rfl, flag_or clear fImm16 rfl,
    flag_or clear f2Imm16 rfl]

theorem operands_or {hs hs' : Hde32s} (flags : hs'.flags = hs.flags ||| b) (apart : b &&& operandMask = 0)
    (modrm : hs'.modrm = hs.modrm) (sib : hs'.sib = hs.sib) (disp : hs'.disp = hs.disp) :
    hs'.operands = hs.operands := by
  have same (flag : BitVec 32) (part : operandMask &&& flag = flag) (shaped : shapeMask &&& flag = flag) :
      hs'.shape &&& flag = hs.shape &&& flag := by
    rw [Hde32s.shape, Hde32s.shape, ← flag_part _ shapeMask shaped, ← flag_part _ shapeMask shaped, flags,
      BitVec.or_comm]
    exact flag_or apart flag part hs.flags
  simp only [Hde32s.operands, Hde32s.dispLen, modrm, sib, disp, same fModrm rfl rfl, same fSib rfl rfl,
    same fDisp8 rfl rfl, same fDisp16 rfl rfl, same fDisp32 rfl rfl]

theorem immediateShapes_spec : ∀ shape ∈ immediateShapes, Hde32s.immLen shape.2 = shape.1 ∧
    Hde32s.farLen shape.2 = 0 ∧ shape.2 &&& operandMask = 0 ∧ shape.2 &&& shapeMask = shape.2 ∧
      shape.2 &&& fErrorLength = 0 := by
  decide +kernel

theorem farShapes_spec : ∀ shape ∈ farShapes, Hde32s.immLen (shape.2.1 ||| shape.2.2) = shape.1 ∧
    Hde32s.farLen (shape.2.1 ||| shape.2.2) = 2 ∧ (shape.2.1 ||| shape.2.2) &&& operandMask = 0 ∧
      (shape.2.1 ||| shape.2.2) &&& shapeMask = shape.2.1 ||| shape.2.2 ∧
      (shape.2.1 ||| shape.2.2) &&& fErrorLength = 0 := by
  decide +kernel

/-- What the immediates took, and what they leave. -/
structure Immediate (code : Code) (s t : Cursor) : Prop where
  spelt : Spelt code s.p t.p t.hs.immediates
  operands : t.hs.operands = s.hs.operands
  header : t.hs.header = s.hs.header
  unbroken : t.hs.flags &&& fErrorLength = 0

theorem immediates_spelt (known : s.cflags ∈ controls) (clear : s.hs.flags &&& immMask = 0)
    (free : s.cflags &&& cImm16 ≠ 0 → s.hs.shape = 0) (other : s.cflags ≠ 6) (ran : immediates code s = some t) :
    Immediate code s t := by
  have clear' : s.hs.shape &&& immMask = 0 := (flag_part s.hs.flags shapeMask rfl).symm.trans clear
  rcases immediates_cases s known clear with
    none | ⟨size, flags, shape, one⟩ | ⟨size, flags, next, shape, wide, far⟩ | enter
  · rw [none code] at ran
    cases ran
    have empty : s.hs.immediates = [] := by
      have imm := immLen_or clear' 0
      have far := farLen_or clear' 0
      have same : s.hs.shape ||| 0 = s.hs.shape := BitVec.or_zero
      rw [same] at imm far
      rw [Hde32s.immediates, imm, far]
      rfl
    exact ⟨empty ▸ ⟨rfl, rfl⟩, rfl, rfl, flag_clear clear fErrorLength rfl⟩
  · rw [one code] at ran
    obtain ⟨imm, far, apart, part, unbroken⟩ := immediateShapes_spec _ shape
    obtain ⟨bytes, found, stored⟩ := storeImm_some.mp ran
    have shaped : t.hs.shape = s.hs.shape ||| flags := by
      rw [← stored, Hde32s.shape, BitVec.and_or_distrib_right, part]
      rfl
    have spelt : t.hs.immediates = bytes := by
      rw [Hde32s.immediates, shaped, immLen_or clear', farLen_or clear', imm, far, List.take_zero, List.append_nil,
        ← stored]
      exact take_stored found s.hs.imm
    have flagged : t.hs.flags = s.hs.flags ||| flags := by rw [← stored]
    refine ⟨?_, operands_or flagged apart ?_ ?_ ?_, ?_, ?_⟩
    · rw [spelt]
      exact spelt_of_fetch found (by rw [← stored])
    · rw [← stored]
    · rw [← stored]
    · rw [← stored]
    · rw [← stored]
      rfl
    · rw [flagged, flag_or clear fErrorLength rfl, unbroken]
  · rw [far code] at ran
    obtain ⟨imm, selector, apart, part, unbroken⟩ := farShapes_spec _ shape
    have blank := free wide
    obtain ⟨u, first, second⟩ := Option.bind_eq_some_iff.mp ran
    obtain ⟨offset, found, rfl⟩ := storeImm_some.mp first
    obtain ⟨segment, behind, stored⟩ := storeDisp_some.mp second
    have flagged : t.hs.flags = s.hs.flags ||| (flags ||| next) := by rw [← stored, BitVec.or_assoc]
    have shaped : t.hs.shape = flags ||| next := by
      rw [Hde32s.shape, flagged, BitVec.and_or_distrib_right, part]
      exact (congrArg (· ||| (flags ||| next)) blank).trans BitVec.zero_or
    have spelt : t.hs.immediates = offset ++ segment := by
      rw [Hde32s.immediates, shaped, imm, selector, ← stored]
      exact congrArg₂ (· ++ ·) (take_stored found s.hs.imm) (take_stored behind s.hs.disp)
    have empty : t.hs.operands = [] := operands_none (shaped ▸ apart)
    have unbroken' : t.hs.flags &&& fErrorLength = 0 := by rw [flagged, flag_or clear fErrorLength rfl, unbroken]
    refine ⟨?_, empty.trans (operands_blank blank).symm, by rw [← stored]; rfl, unbroken'⟩
    rw [spelt]
    exact (spelt_of_fetch found rfl).append (spelt_of_fetch behind (by rw [← stored]))
  · exact absurd enter other

/-! ### The opcode -/

theorem prefix_flags : ∀ pref : UInt8, pref.toBitVec.setWidth 32 <<< 23 &&& shapeMask = 0 := by
  decide +kernel

/-- What the opcode leaves, behind its prefixes. -/
structure Opened (code : Code) (before : Bytes) (t : Cursor) : Prop where
  spelt : Spelt code 0 t.p (before ++ t.hs.opcodes)
  recorded : Recorded before t.hs
  blank : t.hs.shape = 0
  /-- ENTER is in the table of one-byte opcodes. -/
  table : t.ht = 0 ∧ t.c = t.hs.opcode ∨ t.ht = deltaOpcodes ∧ t.hs.opcode = 0x0f

theorem opcode_opened (spelt : Spelt code 0 s.p (before ++ [s.c])) (recorded : Recorded before s.hs) (start : s.ht = 0)
    (ran : opcode code s = some t) : Opened code before t := by
  have flags := prefix_flags s.pref
  simp only [opcode] at ran
  split at ran
  · rename_i two
    obtain ⟨c, here, rest⟩ := Option.bind_eq_some_iff.mp ran
    cases rest
    refine ⟨?_, ⟨recorded.rep, recorded.lock, recorded.seg, recorded.operandSize, recorded.addressSize⟩, flags,
      .inr ⟨rfl, two⟩⟩
    have next : Spelt code s.p (s.p + 1) [c] := spelt_of_fetch (fetch_one here) rfl
    have opcodes : before ++ [s.c, c] = (before ++ [s.c]) ++ [c] := by simp
    rw [Hde32s.opcodes, if_pos two]
    exact opcodes ▸ spelt.append next
  · rename_i one
    split at ran
    all_goals
      cases ran
      refine ⟨?_, ⟨recorded.rep, recorded.lock, recorded.seg, recorded.operandSize, recorded.addressSize⟩, flags,
        .inl ⟨start, rfl⟩⟩
      rw [Hde32s.opcodes, if_neg one]
      exact spelt

/-! ### The whole -/

/-- The parts from `pref_done` to `disasm_done`. -/
def body (code : Code) (s : Cursor) : Option Cursor :=
  (opcode code s).bind fun s => (control s).bind fun s => (checkPrefixes s).bind fun s =>
    (operand code s).bind (immediates code)

def parts (code : Code) (s : Cursor) : Option Cursor := (prefixes code 16 s).bind (body code)

theorem hde32Disasm_parts (code : Code) : hde32Disasm code = (parts code {}).map done := by
  simp [hde32Disasm, parts, body, Option.map_eq_bind, Option.bind_assoc]

theorem reads_control : Reads 0 fun _ => control := .of_cursor fun _ _ => control_p

theorem reads_checkPrefixes : Reads 0 fun _ => checkPrefixes := .of_cursor fun s t ran => by
  obtain ⟨errors, _, checked⟩ := checkPrefixes_form s
  cases checked.symm.trans ran
  rfl

theorem reads_body : Reads 18 body :=
  reads_opcode.bind (reads_control.bind (reads_checkPrefixes.bind (reads_operand.bind reads_immediates)))

theorem reads_parts : Reads 34 parts := (reads_prefixes 16).bind reads_body

/-- What ENTER took, and how much of it its fields spell. -/
structure Entered (code : Code) (s t : Cursor) : Prop where
  header : t.hs.header = s.hs.header
  fields : (t.hs.operands ++ t.hs.immediates).length = 2
  spelt : ∃ bytes, bytes.length = 3 ∧ Spelt code s.p t.p bytes
  unbroken : t.hs.flags &&& fErrorLength = 0

theorem immediates_entered (enter : s.cflags = 6) (blank : s.hs.shape = 0) (ran : immediates code s = some t) :
    Entered code s t := by
  rw [immediates_enter code enter (s.hs.shape_clear blank)] at ran
  obtain ⟨u, first, second⟩ := Option.bind_eq_some_iff.mp ran
  obtain ⟨size, found, rfl⟩ := storeImm_some.mp first
  obtain ⟨level, behind, rfl⟩ := storeImm_some.mp second
  have two := length_fetch found
  have one := length_fetch behind
  have unbroken : (s.hs.flags ||| fImm16 ||| fImm8) &&& fErrorLength = 0 := by
    rw [BitVec.or_assoc]
    exact flag_or (s.hs.shape_clear blank) fErrorLength rfl _
  refine ⟨rfl, ?_, ⟨size ++ level, by simp [two, one], (spelt_of_fetch found rfl).append (spelt_of_fetch behind rfl)⟩,
    unbroken⟩
  have shape (hs : Hde32s) (flags : hs.flags = s.hs.flags ||| fImm16 ||| fImm8) : hs.shape = fImm16 ||| fImm8 := by
    rw [Hde32s.shape, flags, BitVec.or_assoc, BitVec.and_or_distrib_right]
    exact (congrArg (· ||| (fImm16 ||| fImm8)) blank).trans BitVec.zero_or
  have sizes : Hde32s.immLen (fImm16 ||| fImm8) = 2 ∧ Hde32s.farLen (fImm16 ||| fImm8) = 0 := by decide
  rw [operands_none (by rw [shape _ rfl]; decide), Hde32s.immediates, shape _ rfl, sizes.1, sizes.2]
  simp only [store, List.nil_append, List.take_zero, List.append_nil, List.length_take, List.length_append,
    List.length_drop, one, two]
  omega

/-- Up to 15 bytes, the prefixes and then the fields in their order; ENTER has a byte more
than its fields. -/
structure Decoded (code : Code) (before : Bytes) (t : Cursor) : Prop where
  prefixed : ∀ c ∈ before, c ∈ prefixBytes
  recorded : Recorded before t.hs
  spelt : t.hs.opcode ≠ 0xc8 → Spelt code 0 t.p (before ++ t.hs.encoding)
  enter : t.hs.opcode = 0xc8 → t.hs.encoding.length = 3 ∧
    ∃ bytes, bytes.length = 3 ∧ Spelt code 0 t.p (before ++ 0xc8 :: bytes)
  unbroken : t.hs.flags &&& fErrorLength = 0

theorem parts_decoded (ran : parts code {} = some t) (short : t.p ≤ 15) : ∃ before, Decoded code before t := by
  obtain ⟨u₁, ran₁, ran⟩ := Option.bind_eq_some_iff.mp ran
  have forward := (reads_body _ _ _ ran).1
  obtain ⟨u₂, ran₂, ran⟩ := Option.bind_eq_some_iff.mp ran
  obtain ⟨u₃, ran₃, ran⟩ := Option.bind_eq_some_iff.mp ran
  obtain ⟨u₄, ran₄, ran⟩ := Option.bind_eq_some_iff.mp ran
  obtain ⟨u₅, ran₅, ran₆⟩ := Option.bind_eq_some_iff.mp ran
  obtain ⟨kept, ends⟩ := prefixes_form ran₁ recorded_nil
  obtain ⟨e₄, clean₄, checked⟩ := checkPrefixes_form u₃
  cases checked.symm.trans ran₄
  rcases ends with whole | ⟨before, prefixed, _, recorded, stop, found⟩
  · dsimp only at whole
    omega
  · have opened := opcode_opened (spelt_of_fetch found stop) recorded kept ran₂
    have start : u₂.ht = 0 ∨ u₂.ht = deltaOpcodes := opened.table.imp And.left And.left
    obtain ⟨e₃, cflags, x, clean₃, controlled, control⟩ := control_form u₂ start
    cases control.symm.trans ran₃
    have blank : ((u₂.hs.raise e₃).raise e₄).shape = 0 :=
      (Hde32s.shape_raise _ clean₄).trans ((Hde32s.shape_raise _ clean₃).trans opened.blank)
    have operated := operand_operated controlled.1 controlled.2.1 blank ran₅
    have enter : u₅.cflags = 6 ↔ u₂.hs.opcode = 0xc8 := by
      rw [operated.enter, controlled.2.2]
      rcases opened.table with ⟨one, c⟩ | ⟨two, opcode⟩
      · simp [one, c]
      · simp [two, opcode, deltaOpcodes]
    have behind : Spelt code u₂.p u₅.p u₅.hs.operands := operated.spelt
    have header : u₅.hs.header = u₂.hs.header := operated.header
    by_cases entered : u₅.cflags = 6
    · have wide : (6 : UInt8) &&& cImm16 ≠ 0 := by decide
      have free := operated.free (entered ▸ wide)
      obtain ⟨header', fields, ⟨bytes, three, spelt⟩, unbroken⟩ := immediates_entered entered free ran₆
      obtain ⟨opcodes, opcode, records⟩ := header_inj (header'.trans header)
      have byte := enter.mp entered
      have opcode' : u₂.hs.opcodes = [0xc8] := by
        rw [Hde32s.opcodes, byte]
        rfl
      refine ⟨before, prefixed, records _ opened.recorded, fun other => absurd (opcode.trans byte) other,
        fun _ => ⟨?_, ?_⟩, unbroken⟩
      · rw [Hde32s.encoding, List.append_assoc, List.length_append, fields, opcodes, opcode']
        rfl
      · rw [operands_blank free] at behind
        have joined := (opened.spelt.append behind).append spelt
        rw [opcode'] at joined
        exact ⟨bytes, three, by simpa using joined⟩
    · have immediate := immediates_spelt operated.known operated.clear operated.free entered ran₆
      obtain ⟨opcodes, opcode, records⟩ := header_inj (immediate.header.trans header)
      refine ⟨before, prefixed, records _ opened.recorded, fun _ => ?_, fun byte => ?_, immediate.unbroken⟩
      · have joined := (opened.spelt.append behind).append immediate.spelt
        rw [Hde32s.encoding, opcodes, immediate.operands]
        simpa only [List.append_assoc] using joined
      · exact absurd (enter.mpr (opcode.symm.trans byte)) entered

theorem parts_ends (mapped : Mapped code) : ∃ t, parts code {} = some t := by
  obtain ⟨u₁, ran₁⟩ := prefixes_ends mapped {} 16
  obtain ⟨kept, _⟩ := prefixes_form ran₁ recorded_nil
  obtain ⟨u₂, ran₂, start⟩ := opcode_ends mapped u₁ kept
  obtain ⟨e₃, cflags, x, _, _, control⟩ := control_form u₂ start
  obtain ⟨e₄, _, checked⟩ := checkPrefixes_form { u₂ with hs := u₂.hs.raise e₃, cflags := cflags, x := x }
  obtain ⟨u₅, ran₅⟩ := operand_ends mapped { u₂ with hs := (u₂.hs.raise e₃).raise e₄, cflags := cflags, x := x }
  obtain ⟨u₆, ran₆⟩ := immediates_ends mapped u₅
  exact ⟨u₆, by simp only [parts, body, ran₁, ran₂, control, checked, ran₅, ran₆, Option.bind_some]⟩

/-- The first byte is taken in any case. -/
theorem parts_range (ran : parts code {} = some t) : 1 ≤ t.p ∧ t.p ≤ 34 := by
  refine ⟨?_, by simpa using (reads_parts code {} t ran).2.1⟩
  obtain ⟨u, ran₁, ran₂⟩ := Option.bind_eq_some_iff.mp ran
  have forward := (reads_body _ _ _ ran₂).1
  obtain ⟨_, ends⟩ := prefixes_form ran₁ recorded_nil
  dsimp only at ends
  rcases ends with whole | ⟨before, _, _, _, stop, _⟩
  · omega
  · omega

section
variable {t : Cursor}

theorem len_small (bound : t.p ≤ 34) : (UInt8.ofNat t.p).toNat = t.p := by
  rw [UInt8.toNat_ofNat']
  omega

theorem done_short (short : t.p ≤ 15) : t.done = { t.hs with len := UInt8.ofNat t.p } := by
  have fits : ¬ 15 < UInt8.ofNat t.p := by
    rw [UInt8.lt_iff_toNat_lt, len_small (by omega)]
    simpa using short
  rw [done, if_neg fits]

theorem done_long (long : 15 < t.p) (bound : t.p ≤ 34) : t.done = { t.hs.fail fErrorLength true with len := 15 } := by
  have exceeds : 15 < UInt8.ofNat t.p := by
    rw [UInt8.lt_iff_toNat_lt, len_small bound]
    simpa using long
  rw [done, if_pos exceeds]

theorem done_broken (long : 15 < t.p) (bound : t.p ≤ 34) :
    t.done.flags &&& fError ≠ 0 ∧ t.done.flags &&& fErrorLength ≠ 0 := by
  rw [done_long long bound]
  change (t.hs.flags ||| (fError ||| fErrorLength)) &&& fError ≠ 0 ∧
    (t.hs.flags ||| (fError ||| fErrorLength)) &&& fErrorLength ≠ 0
  constructor
  · rw [BitVec.or_comm fError, ← BitVec.or_assoc]
    exact flag_set _ fError (by decide)
  · rw [← BitVec.or_assoc]
    exact flag_set _ fErrorLength (by decide)

end

end Cursor

/-- What it returns makes progress. -/
theorem hde32Disasm_len (decoded : hde32Disasm code = some hs) : 1 ≤ hs.len.toNat ∧ hs.len.toNat ≤ 15 := by
  rw [Cursor.hde32Disasm_parts, Option.map_eq_some_iff] at decoded
  obtain ⟨t, ran, rfl⟩ := decoded
  obtain ⟨low, high⟩ := Cursor.parts_range ran
  by_cases short : t.p ≤ 15
  · have taken : t.done.len.toNat = t.p := by
      rw [Cursor.done_short short]
      exact Cursor.len_small high
    omega
  · have cut : t.done.len = 15 := by rw [Cursor.done_long (by omega) high]
    rw [cut]
    decide

/-- On every content of memory the disassembler ends inside its table. It takes 1 to 34
bytes, which alone decide the result, and reads at most one behind them; the length it
returns is cut at 15, and flagged where it is cut. -/
theorem hde32Disasm_bounded (bytes : Nat → UInt8) : ∃ hs n, 1 ≤ n ∧ n ≤ 34 ∧ hs.len.toNat = min n 15 ∧
    (hs.flags &&& fErrorLength ≠ 0 ↔ 15 < n) ∧
    ∀ code, (∀ i < n, code i = some (bytes i)) → (∃ c, code n = some c) → hde32Disasm code = some hs := by
  let whole : Code := fun i => some (bytes i)
  have mapped : Mapped whole := fun i => ⟨bytes i, rfl⟩
  obtain ⟨t, ran⟩ := Cursor.parts_ends mapped
  obtain ⟨low, high⟩ := Cursor.parts_range ran
  have same (code : Code) (below : ∀ i < t.p, code i = some (bytes i)) (ahead : ∃ c, code t.p = some c) :
      hde32Disasm code = some t.done := by
    have agrees : Agrees whole code t.p := by
      refine ⟨fun i inside c here => ?_, fun _ _ => ahead⟩
      cases here
      exact below i inside
    rw [Cursor.hde32Disasm_parts, (Cursor.reads_parts _ _ _ ran).2.2 code agrees]
    rfl
  refine ⟨t.done, t.p, low, high, ?_, ?_, same⟩
  · by_cases short : t.p ≤ 15
    · rw [Cursor.done_short short, min_eq_left short]
      exact Cursor.len_small high
    · rw [Cursor.done_long (by omega) high, min_eq_right (by omega)]
      rfl
  · constructor
    · intro flagged
      by_contra short
      obtain ⟨before, decoded⟩ := Cursor.parts_decoded ran (by omega)
      rw [Cursor.done_short (by omega)] at flagged
      exact flagged decoded.unbroken
    · exact fun long => (Cursor.done_broken long high).2

/-- The bytes of an instruction are prefixes, of which the last of each group is recorded,
and then its fields, for every instruction of up to 15 bytes but ENTER. -/
theorem hde32Disasm_roundTrip (decoded : hde32Disasm code = some hs) (short : hs.flags &&& fErrorLength = 0) :
    (∃ before, (∀ c ∈ before, c ∈ prefixBytes) ∧ Recorded before hs ∧
      fetch code 0 hs.len.toNat = some (before ++ hs.encoding)) ↔ hs.opcode ≠ 0xc8 := by
  rw [Cursor.hde32Disasm_parts, Option.map_eq_some_iff] at decoded
  obtain ⟨t, ran, rfl⟩ := decoded
  obtain ⟨_, bound⟩ := Cursor.parts_range ran
  have fits : t.p ≤ 15 := by
    by_contra long
    exact (Cursor.done_broken (by omega) bound).2 short
  obtain ⟨before, prefixed, recorded, spelt, enter, _⟩ := Cursor.parts_decoded ran fits
  have taken : t.done.len.toNat = t.p := by
    rw [Cursor.done_short fits]
    exact Cursor.len_small bound
  have fields : t.done.opcode = t.hs.opcode ∧ t.done.encoding = t.hs.encoding ∧
    (∀ bytes, Recorded bytes t.hs → Recorded bytes t.done) := by
    rw [Cursor.done_short fits]
    exact ⟨rfl, rfl, fun _ recorded => ⟨recorded.rep, recorded.lock, recorded.seg, recorded.operandSize,
      recorded.addressSize⟩⟩
  obtain ⟨opcode, encoding, records⟩ := fields
  rw [taken, opcode, encoding]
  constructor
  · rintro ⟨before', prefixed', -, found⟩ byte
    obtain ⟨three, bytes, rest, stop, whole⟩ := enter byte
    rw [stop, Nat.zero_add, whole, Option.some.injEq] at found
    have lengths := congrArg List.length found
    simp only [List.length_append, List.length_cons, three, rest] at lengths
    have split : (before ++ [0xc8]) ++ bytes = before' ++ t.hs.encoding := by simpa using found
    have extra : before ++ [0xc8] = before' := (List.append_inj split (by simp; omega)).1
    exact absurd (prefixed' 0xc8 (by simp [← extra])) (by decide)
  · intro other
    obtain ⟨stop, whole⟩ := spelt other
    refine ⟨before, prefixed, records _ recorded, ?_⟩
    rw [stop, Nat.zero_add, whole]

/-- `lock mov eax, fs:[eax+ecx*4+0x12345678]`, with an operand size -/
def locked : Bytes := [0xf0, 0x64, 0x66, 0x8b, 0x84, 0x88, 0x78, 0x56, 0x34, 0x12]

theorem hde32Disasm_roundTrip_locked :
    ∃ hs, hde32Disasm (fun i => locked[i]?) = some hs ∧ ∃ before, (∀ c ∈ before, c ∈ prefixBytes) ∧
      Recorded before hs ∧ fetch (fun i => locked[i]?) 0 hs.len.toNat = some (before ++ hs.encoding) := by
  have ends : (hde32Disasm fun i => locked[i]?).any fun hs => hs.flags &&& fErrorLength = 0 ∧ hs.opcode ≠ 0xc8 := by
    decide +kernel
  obtain ⟨hs, decoded⟩ := Option.isSome_iff_exists.mp (Option.isSome_of_any ends)
  rw [decoded, Option.any_some, decide_eq_true_eq] at ends
  exact ⟨hs, decoded, (hde32Disasm_roundTrip decoded ends.1).mpr ends.2⟩

end JaplusProxy.Hooks
