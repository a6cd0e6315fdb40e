import JaplusProxy.Hooks.DecodingProofs
import JaplusProxy.Hooks.EncodingProofs
import JaplusProxy.Hooks.InstallProofs
import JaplusProxy.Hooks.ReportProofs

/-! What InstallPatches achieves with its own disassembler, where every interlock holds and
the system grants its calls: the moved instructions run from the trampoline as they did
before. -/
namespace JaplusProxy.Hooks
open CInt CString ByteMemory X86Jump

/-! ### Instructions that can be moved -/

/-- Consecutive instructions without errors, none of them relative to its own address. -/
inductive Straight (image : Image 32) : Addr → Nat → Prop where
  | done : Straight image a 0
  | next : hde32Disasm (codeAt image a) = some hs → hs.flags &&& (fError ||| fRelative) = 0 →
      Straight image (a + BitVec.ofNat 32 hs.len.toNat) n → Straight image a (hs.len.toNat + n)

theorem hde32_of_decoded {image : Image 32} (decoded : hde32Disasm (codeAt image a) = some hs) :
    hde32 image a = ⟨hs.len.toNat, hs.flags &&& fError ≠ 0⟩ := by
  rw [hde32, decoded]

/-- The bytes that an instruction was decoded from, wherever they lie. -/
theorem decoded_of_agrees (decoded : hde32Disasm code = some hs) (sound : hs.flags &&& fError = 0)
    (below : ∀ i < hs.len.toNat, ∀ c, code i = some c → code' i = some c) (mapped : Mapped code') :
    hde32Disasm code' = some hs := by
  rw [Cursor.hde32Disasm_parts, Option.map_eq_some_iff] at decoded
  obtain ⟨t, ran, rfl⟩ := decoded
  obtain ⟨_, bound⟩ := Cursor.parts_range ran
  have short : t.p ≤ 15 := by
    by_contra long
    exact (Cursor.done_broken (by omega) bound).1 sound
  have taken : t.done.len.toNat = t.p := by
    rw [Cursor.done_short short]
    exact Cursor.len_small bound
  have agrees : Agrees code code' t.p := ⟨taken ▸ below, fun _ _ => mapped t.p⟩
  rw [Cursor.hde32Disasm_parts, (Cursor.reads_parts _ _ _ ran).2.2 code' agrees]
  rfl

theorem mapped_codeAt (image : Image 32) (a : Addr) : Mapped (codeAt image a) := fun _ => ⟨_, rfl⟩

theorem codeAt_of_read {image : Image 32} (bytes : Bytes) (held : image.read a bytes.length = bytes)
    (here : bytes[i]? = some c) :
    codeAt image a i = some c := by
  obtain ⟨inside, byte⟩ := List.getElem?_eq_some_iff.mp here
  have read := Image.read_at image a bytes.length i (by simpa using inside)
  simp only [held] at read
  rw [codeAt, ← read, byte]

/-- At the head of known bytes. -/
theorem decoded_of_read {image : Image 32} (held : image.read a bytes.length = bytes)
    (decoded : hde32Disasm (fun i => bytes[i]?) = some hs) (sound : hs.flags &&& fError = 0) :
    hde32Disasm (codeAt image a) = some hs :=
  decoded_of_agrees decoded sound (fun _ _ _ here => codeAt_of_read bytes held here) (mapped_codeAt image a)

namespace Straight
variable {image image' : Image 32}

theorem sound (flags : BitVec 32) (plain : flags &&& (fError ||| fRelative) = 0) : flags &&& fError = 0 :=
  flag_clear plain fError rfl

/-- The same bytes elsewhere are the same instructions. -/
theorem move (straight : Straight image a n) (same : image'.read b n = image.read a n) : Straight image' b n := by
  induction straight generalizing b with
  | done => exact .done
  | @next a hs n decoded plain rest ih =>
    rw [Image.read_append, Image.read_append] at same
    obtain ⟨here, behind⟩ := List.append_inj same (by simp)
    refine .next (decoded_of_agrees decoded (sound _ plain) (fun i inside c byte => ?_) (mapped_codeAt image' b)) plain
      (ih behind)
    have read := Image.read_at image' b hs.len.toNat i (by simpa using inside)
    simp only [here, Image.read_at] at read
    rw [codeAt, ← read]
    exact byte

theorem instructions (straight : Straight image a n) : Instructions hde32 image a n := by
  induction straight with
  | done => exact .done
  | @next a hs n decoded plain rest ih =>
    have here := hde32_of_decoded decoded
    have taken : hs.len.toNat ≠ 0 := Nat.one_le_iff_ne_zero.mp (hde32Disasm_len decoded).1
    have step : Instructions hde32 image a ((hde32 image a).len + n) :=
      .next (by rw [here]; exact taken) (by rw [here]; simpa using sound _ plain) (by rw [here]; exact ih)
    rwa [here] at step

end Straight

theorem hookLen_of_instructions {disasm : Disasm} {a : Addr} (whole : Instructions disasm image a rest)
    (here : a = addr + BitVec.ofNat 32 n) (total : want = n + rest) (enough : rest ≤ fuel) :
    hookLen disasm image addr want fuel n := by
  induction whole generalizing n fuel with
  | done =>
    cases fuel with
    | zero => simp [hookLen, total]
    | succ fuel => simp [hookLen, total]
  | @next a rest some sound following ih =>
    obtain ⟨fuel, rfl⟩ : ∃ more, fuel = more + 1 := ⟨fuel - 1, by omega⟩
    have next : hookLen disasm image addr want fuel (n + (disasm image a).len) :=
      ih (by rw [here, BitVec.ofNat_add, BitVec.add_assoc]) (by omega) (by omega)
    rw [hookLen]
    dsimp only
    rw [if_pos (by omega), ← here, if_neg (by simp [some, sound])]
    exact next

/-- The length check accepts exactly the whole instructions. -/
theorem hookLenOk_of_instructions {disasm : Disasm} (whole : Instructions disasm image addr want) (aimed : addr ≠ 0)
    (nonempty : want ≠ 0) (short : want ≤ 64) : hookLenOk disasm image addr want := by
  have open_ : ¬ (addr = 0 ∨ want = 0 ∨ 64 < want) := by
    simp only [not_or, Nat.not_lt]
    exact ⟨aimed, nonempty, short⟩
  rw [hookLenOk, if_neg open_]
  exact hookLen_of_instructions whole (by simp) (by omega) (Nat.le_refl want)

/-! ### The prologues -/

namespace Cursor

/-- What the opcode decides alone. -/
def head (code : Code) (s : Cursor) : Option Cursor :=
  (prefixes code 16 s).bind fun s => (opcode code s).bind fun s => (control s).bind checkPrefixes

/-- `mov edx, [disp32]` before its operand -/
def load : Cursor := { hs := { opcode := 0x8b }, p := 1, c := 0x8b, pref := preNone, cflags := cModrm }

/-- `sub esp, imm32` before its operand -/
def sub : Cursor := { hs := { opcode := 0x81 }, p := 1, c := 0x81, pref := preNone, cflags := cModrm ||| cImmP66 }

theorem head_load : head (fun i => [0x8b][i]?) {} = some load := by
  decide +kernel

theorem head_sub : head (fun i => [0x81][i]?) {} = some sub := by
  decide +kernel

theorem reads_head : Reads 17 head :=
  (reads_prefixes 16).bind (reads_opcode.bind (reads_control.bind reads_checkPrefixes))

theorem parts_of_head {c : UInt8} (first : code 0 = some c) (alone : head (fun i => [c][i]?) {} = some s) :
    parts code {} = (operand code s).bind (immediates code) := by
  have split : parts code {} = (head code {}).bind fun s => (operand code s).bind (immediates code) := by
    simp only [parts, head, Option.bind_assoc]
    rfl
  have single (i : Nat) (d : UInt8) (here : [c][i]? = some d) : code i = some d := by
    obtain ⟨inside, byte⟩ := List.getElem?_eq_some_iff.mp here
    obtain rfl : i = 0 := by simpa using inside
    simpa [first] using byte
  rw [split, (reads_head _ _ _ alone).2.2 code ⟨fun i _ => single i, fun d here => ⟨d, single _ d here⟩⟩,
    Option.bind_some]

end Cursor

/-- What is left to do behind the operand. -/
theorem decoded_of_operand {c : UInt8} {t : Cursor} (first : code 0 = some c)
    (alone : Cursor.head (fun i => [c][i]?) {} = some s)
    (rest : (Cursor.operand code s).bind (Cursor.immediates code) = some t) (short : t.p ≤ 15) :
    hde32Disasm code = some { t.hs with len := UInt8.ofNat t.p } := by
  rw [Cursor.hde32Disasm_parts, Cursor.parts_of_head first alone, rest, Option.map_some, Cursor.done_short short]

/-- `mov edx, [disp32]`, whatever the displacement -/
theorem decoded_load (first : code 0 = some 0x8b) (second : code 1 = some 0x15) (mapped : Mapped code) :
    ∃ hs, hde32Disasm code = some hs ∧ hs.len = 6 ∧ hs.flags &&& (fError ||| fRelative) = 0 := by
  let modrm := Cursor.withModrm Cursor.load.hs 0x15
  have checked : Cursor.checkModrm Cursor.load 0x15 = some (0, modrm) := by decide +kernel
  obtain ⟨next, ahead⟩ := mapped 2
  obtain ⟨disp, found⟩ := fetch_mapped mapped 2 4
  let t : Cursor := { Cursor.load with
    hs := { modrm with flags := modrm.flags ||| fDisp32, disp := store modrm.disp disp }, p := 6 }
  have operand : Cursor.operand code Cursor.load = some t := by
    have second' : code Cursor.load.p = some 0x15 := second
    have ahead' : code (Cursor.load.p + 1) = some next := ahead
    rw [Cursor.operand, if_pos (by decide), Cursor.modrm]
    simp only [second', Option.bind_eq_bind, Option.bind_some, checked, Cursor.address, ahead']
    rw [if_neg (by decide +kernel)]
    have size : Cursor.dispSize Cursor.load.pref 0 modrm.modrmRm = 4 := by decide
    rw [size, Cursor.storeDisp]
    change (fetch code 2 4).bind _ = _
    rw [found]
    rfl
  refine ⟨_, decoded_of_operand first Cursor.head_load (t := t) ?_ (show 6 ≤ 15 by omega), rfl, ?_⟩
  · rw [operand]
    exact Cursor.immediates_none code rfl
  · change (modrm.flags ||| fDisp32) &&& (fError ||| fRelative) = 0
    decide

/-- `sub esp, imm32`, whatever the immediate -/
theorem decoded_sub (first : code 0 = some 0x81) (second : code 1 = some 0xec) (mapped : Mapped code) :
    ∃ hs, hde32Disasm code = some hs ∧ hs.len = 6 ∧ hs.flags &&& (fError ||| fRelative) = 0 := by
  let modrm := Cursor.withModrm Cursor.sub.hs 0xec
  obtain ⟨imm, found⟩ := fetch_mapped mapped 2 4
  let s : Cursor := { Cursor.sub with hs := modrm, p := 2 }
  let t : Cursor := { s with hs := { modrm with flags := modrm.flags ||| fImm32, imm := store modrm.imm imm }, p := 6 }
  have closed : Cursor.operand (fun i => [0x81, 0xec, 0][i]?) Cursor.sub = some s := by decide +kernel
  have agrees : Agrees (fun i => [0x81, 0xec, 0][i]?) code 2 := by
    refine ⟨fun i inside c here => ?_, fun _ _ => mapped 2⟩
    rcases i with _ | _ | i
    · exact first.trans here
    · exact second.trans here
    · omega
  have operand := (Cursor.reads_operand _ _ _ closed).2.2 code agrees
  have immediates : Cursor.immediates code s = some t := by
    have stored : Cursor.immP66 code s = some t := by
      rw [Cursor.immP66, if_neg (by decide), if_neg (by decide)]
      change (fetch code 2 4).bind _ = _
      rw [found]
      rfl
    have i16 : t.cflags &&& cImm16 = 0 := show Cursor.sub.cflags &&& cImm16 = 0 by decide
    have i8 : t.cflags &&& cImm8 = 0 := show Cursor.sub.cflags &&& cImm8 = 0 by decide
    have r32 : t.cflags &&& cRel32 = 0 := show Cursor.sub.cflags &&& cRel32 = 0 by decide
    have r8 : t.cflags &&& cRel8 = 0 := show Cursor.sub.cflags &&& cRel8 = 0 by decide
    rw [Cursor.immediates_plain (s := s) code r32, stored, Option.bind_some, Cursor.imm16_skip i16, Option.bind_some,
      Cursor.imm8_skip i8, Option.bind_some, Cursor.relative_skip r32 r8]
  refine ⟨_, decoded_of_operand first Cursor.head_sub (t := t) ?_ (show 6 ≤ 15 by omega), rfl, ?_⟩
  · rw [operand]
    exact immediates
  · change (modrm.flags ||| fImm32) &&& (fError ||| fRelative) = 0
    decide

/-- A part of what was read. -/
theorem read_slice {image : Image 32} (bytes : Bytes) (held : image.read a bytes.length = bytes) (i k : Nat)
    (inside : i + k ≤ bytes.length) : image.read (a + BitVec.ofNat 32 i) k = (bytes.drop i).take k := by
  have total : bytes.length = i + (k + (bytes.length - i - k)) := by omega
  have split : bytes = image.read a i ++ (image.read (a + BitVec.ofNat 32 i) k ++
      image.read (a + BitVec.ofNat 32 i + BitVec.ofNat 32 k) (bytes.length - i - k)) := by
    rw [← Image.read_append, ← Image.read_append, ← total, held]
  rw [split, List.drop_left' (by simp), List.take_left' (by simp)]

namespace Straight
variable {image : Image 32} {a : Addr}

/-- An instruction whose bytes are known, with the byte behind it where that is looked at. -/
theorem known (bytes : Bytes) (held : image.read a bytes.length = bytes) (i k ahead : Nat)
    (inside : i + ahead ≤ bytes.length)
    (decoded : (hde32Disasm fun j => ((bytes.drop i).take ahead)[j]?).any fun hs =>
      hs.len.toNat = k ∧ hs.flags &&& (fError ||| fRelative) = 0)
    (rest : Straight image (a + BitVec.ofNat 32 (i + k)) n) : Straight image (a + BitVec.ofNat 32 i) (k + n) := by
  have here := read_slice bytes held i ahead inside
  cases found : hde32Disasm fun j => ((bytes.drop i).take ahead)[j]? with
  | none =>
    rw [found] at decoded
    exact absurd decoded Bool.false_ne_true
  | some hs =>
    rw [found, Option.any_some, decide_eq_true_eq] at decoded
    obtain ⟨rfl, plain⟩ := decoded
    have length : ((bytes.drop i).take ahead).length = ahead := by
      rw [List.length_take, List.length_drop]
      omega
    refine .next (decoded_of_read (length.symm ▸ here) found (sound _ plain)) plain ?_
    rwa [BitVec.ofNat_add, ← BitVec.add_assoc] at rest

theorem last
    (decoded : ∃ hs, hde32Disasm (codeAt image a) = some hs ∧ hs.len = 6 ∧ hs.flags &&& (fError ||| fRelative) = 0) :
    Straight image a 6 := by
  obtain ⟨hs, decoded, len, plain⟩ := decoded
  have step := Straight.next (n := 0) decoded plain .done
  rwa [len] at step

end Straight

namespace Process
variable {p : Process} {x : Site} {image : Image 32}

/-- `push edi; push esi; push ebx; mov edx, [disp32]` -/
theorem siege_straight (matched : p.siege.Matches image) : Straight image p.siege.addr 9 := by
  let bytes : Bytes := [0x57, 0x56, 0x53, 0x8b, 0x15]
  have held : image.read p.siege.addr bytes.length = bytes := matched
  have slice : image.read (p.siege.addr + 3) 2 = [0x8b, 0x15] := read_slice bytes held 3 2 (by decide)
  have first : codeAt image (p.siege.addr + 3) 0 = some 0x8b := codeAt_of_read [0x8b, 0x15] slice rfl
  have second : codeAt image (p.siege.addr + 3) 1 = some 0x15 := codeAt_of_read [0x8b, 0x15] slice rfl
  have straight : Straight image (p.siege.addr + BitVec.ofNat 32 0) (1 + (1 + (1 + 6))) :=
    .known bytes held 0 1 1 (by decide) (by decide +kernel) (.known bytes held 1 1 1 (by decide) (by decide +kernel)
      (.known bytes held 2 1 1 (by decide) (by decide +kernel)
        (.last (decoded_load first second (mapped_codeAt image _)))))
  simpa using straight

/-- `push ebp; mov ebp, esp; sub esp, imm8` -/
theorem frame_straight {a : Addr} (bytes : Bytes) (size : bytes = connless.expect ∨ bytes = donedl.expect)
    (held : image.read a bytes.length = bytes) : Straight image a 6 := by
  have straight : Straight image (a + BitVec.ofNat 32 0) (1 + (2 + (3 + 0))) := by
    rcases size with rfl | rfl
    · exact .known connless.expect held 0 1 1 (by decide) (by decide +kernel)
        (.known connless.expect held 1 2 3 (by decide) (by decide +kernel)
          (.known connless.expect held 3 3 3 (by decide) (by decide +kernel) .done))
    · exact .known donedl.expect held 0 1 1 (by decide) (by decide +kernel)
        (.known donedl.expect held 1 2 3 (by decide) (by decide +kernel)
          (.known donedl.expect held 3 3 3 (by decide) (by decide +kernel) .done))
  simpa using straight

/-- `push ebp; mov ebp, esp; sub esp, imm32` -/
theorem rcon_straight (matched : rcon.Matches image) : Straight image rcon.addr 9 := by
  have slice : image.read (rcon.addr + 3) 2 = [0x81, 0xec] := read_slice rcon.expect matched 3 2 (by decide)
  have first : codeAt image (rcon.addr + 3) 0 = some 0x81 := codeAt_of_read [0x81, 0xec] slice rfl
  have second : codeAt image (rcon.addr + 3) 1 = some 0xec := codeAt_of_read [0x81, 0xec] slice rfl
  have straight : Straight image (rcon.addr + BitVec.ofNat 32 0) (1 + (2 + 6)) :=
    .known rcon.expect matched 0 1 1 (by decide) (by decide +kernel)
      (.known rcon.expect matched 1 2 3 (by decide) (by decide +kernel)
        (.last (decoded_sub first second (mapped_codeAt image _))))
  simpa using straight

/-- The first bytes that are asked for leave no choice. -/
theorem site_straight (member : x ∈ p.sites) (matched : x.Matches image) : Straight image x.addr x.prefixLen := by
  rcases mem_sites member with rfl | rfl | rfl | rfl
  · exact siege_straight matched
  · exact frame_straight connless.expect (.inl rfl) matched
  · exact frame_straight donedl.expect (.inr rfl) matched
  · exact rcon_straight matched

end Process

end JaplusProxy.Hooks
