import JaplusProxy.Hooks.RemovalProofs

/-! What the two encodings of a hook decode to. The jump over the target goes to the detour,
and the trampoline runs the moved prefix and goes on behind it. -/
namespace JaplusProxy.Hooks
open CInt CString ByteMemory X86Jump

/-- No mapping shares a byte with the prefix at the target. -/
def Fresh (k : Kernel) (target : Addr) (len : Nat) : Prop :=
  ∀ size tr, k.mmap size = some tr → ∀ a, Within tr size a → ¬ Within target len a

/-- A hook that is in. -/
structure Hooked (k : Kernel) (m m' : Memory) (target detour : Addr) (len : Nat) (out : Tramp) : Prop where
  lands : landing m'.image target = some detour
  moved : m'.image.read (m'.tramps out) len = m.image.read target len
  resumes : resumption m'.image (m'.tramps out + BitVec.ofNat 32 len) = some (target + BitVec.ofNat 32 len)
  /-- The mapping has room for the prefix and one of the two jumps back. -/
  frame : ∃ size, (size = len + 5 ∨ size = len + 7) ∧ k.mmap size = some (m'.tramps out) ∧
    ∀ a, ¬ Within target len a → ¬ Within (m'.tramps out) size a → m'.image a = m.image a
  others : ∀ t, t ≠ out → m'.tramps t = m.tramps t
  armed : ∀ (s : State) name p d, s.memory = m' → s.planted.find? (·.name = name) = some p → p.target = target →
    (s.hookArmed name d = true ↔ d = detour)

/-- A writer hooks the target, or fails and leaves memory as it was. -/
def Writer (k : Kernel) (m : Memory) (target detour : Addr) (len : Nat) (out : Tramp) (result : Memory × Int) : Prop :=
  result = (m, -1) ∨ result.2 = 0 ∧ Hooked k m result.1 target detour len out

/-! ### The encodings -/

/-- The jump `out` over a target and the jump `back` from its trampoline decode as meant. -/
structure Encoding (target detour : Addr) (len : Nat) (out : Bytes) (backLen : Nat) (back : Addr → Bytes) : Prop where
  size : ∀ tr, (back tr).length = backLen
  kind : backLen = 5 ∨ backLen = 7
  lands : ∀ image : Image 32, image.read target out.length = out → landing image target = some detour
  resumes : ∀ (image : Image 32) (a : Addr), image.read (a + BitVec.ofNat 32 len) backLen = back a →
    resumption image (a + BitVec.ofNat 32 len) = some (target + BitVec.ofNat 32 len)

theorem Encoding.length_moved (encoding : Encoding target detour len out backLen back) (image : Image 32) (tr : Addr) :
    (image.read target len ++ back tr).length = len + backLen := by
  rw [List.length_append, Image.length_read, encoding.size]

theorem encoding_rel (target detour : Addr) (len : Nat) : Encoding target detour len (jumpRel target detour) 5
    (fun tr => jumpRel (tr + BitVec.ofNat 32 len) (target + BitVec.ofNat 32 len)) where
  size := fun _ => length_jumpRel
  kind := .inl rfl
  lands := fun _ planted => landing_jumpRel planted
  resumes := fun _ _ planted => resumption_jumpRel planted

theorem encoding_abs (target detour : Addr) (len : Nat) : Encoding target detour len (pushRet detour) 7
    (fun _ => movJump (target + BitVec.ofNat 32 len)) where
  size := fun _ => length_movJump
  kind := .inr rfl
  lands := fun _ planted => landing_pushRet planted
  resumes := fun _ _ planted => resumption_movJump planted

/-! ### The writers -/

/-- With the prefix and the jump back at `tr`, and the jump out over the target. -/
def jumpedImage (image : Image 32) (target : Addr) (len : Nat) (out : Bytes) (back : Addr → Bytes) (tr : Addr) :
    Image 32 :=
  (image.write tr (image.read target len ++ back tr)).write target (out ++ nops (len - out.length))

theorem hookJump_cases (k : Kernel) (m : Memory) (target detour : Addr) (len : Nat) (outTramp : Tramp) (out : Bytes)
    (backLen : Nat) (back : Addr → Bytes) :
    hookJump k m target detour len outTramp out backLen back = (m, -1) ∨ ∃ tr, k.mmap (len + backLen) = some tr ∧
      out.length ≤ len ∧ len ≤ 64 ∧ hookJump k m target detour len outTramp out backLen back =
        (⟨jumpedImage m.image target len out back tr, Function.update m.tramps outTramp tr⟩, 0) := by
  rw [hookJump]
  split
  · exact .inl rfl
  · rename_i guard
    simp only [not_or, Nat.not_lt] at guard
    obtain ⟨_, _, room, short⟩ := guard
    cases mapped : k.mmap (len + backLen) with
    | none => exact .inl rfl
    | some tr =>
      dsimp only [patchBytes]
      split
      · exact .inl rfl
      · exact .inr ⟨tr, rfl, room, short, rfl⟩

theorem length_padded (room : out.length ≤ len) : (out ++ nops (len - out.length)).length = len := by
  rw [List.length_append, length_nops]
  omega

section
variable {target detour : Addr} {len : Nat} {out : Bytes} {backLen : Nat} {back : Addr → Bytes}
variable (encoding : Encoding target detour len out backLen back) (room : out.length ≤ len) (short : len ≤ 64)
include encoding room

theorem jumpedImage_outside {image : Image 32} {tr a : Addr} (apart : ¬ Within target len a)
    (outside : ¬ Within tr (len + backLen) a) : jumpedImage image target len out back tr a = image a := by
  have copied := encoding.length_moved image tr
  rw [jumpedImage, Image.write_outside _ _ _ (by rwa [length_padded room]), Image.write_outside _ _ _ (by rwa [copied])]

include short

theorem jumpedImage_landing (image : Image 32) (tr : Addr) :
    landing (jumpedImage image target len out back tr) target = some detour :=
  encoding.lands _ (Image.read_write_append _ _ _ _ (by omega))

/-- The jump over the target spares the trampoline. -/
theorem jumpedImage_trampoline (image : Image 32) (tr : Addr)
    (fresh : ∀ a, Within tr (len + backLen) a → ¬ Within target len a) :
    (jumpedImage image target len out back tr).read tr len = image.read target len ∧
      (jumpedImage image target len out back tr).read (tr + BitVec.ofNat 32 len) backLen = back tr := by
  have kind := encoding.kind
  have copied := encoding.length_moved image tr
  have held : (jumpedImage image target len out back tr).read tr (len + backLen) =
      image.read target len ++ back tr := by
    calc (jumpedImage image target len out back tr).read tr (len + backLen)
        = (image.write tr (image.read target len ++ back tr)).read tr (len + backLen) :=
          Image.read_congr _ fun a inside => Image.write_outside _ _ _ (by
            rw [length_padded room]
            exact fresh a inside)
      _ = image.read target len ++ back tr := by
          rw [← copied]
          exact Image.read_write _ _ _ (by omega)
  rw [Image.read_append] at held
  exact List.append_inj held (by simp)

end

theorem hookJump_writer (fresh : Fresh k target len) (encoding : Encoding target detour len out backLen back) :
    Writer k m target detour len outTramp (hookJump k m target detour len outTramp out backLen back) := by
  rcases hookJump_cases k m target detour len outTramp out backLen back with
    failed | ⟨tr, mapped, room, short, done⟩
  · exact .inl failed
  · have written : Function.update m.tramps outTramp tr outTramp = tr := Function.update_self ..
    have jump := jumpedImage_landing encoding room short m.image tr
    obtain ⟨moved, behind⟩ := jumpedImage_trampoline encoding room short m.image tr (fresh _ tr mapped)
    refine .inr ⟨by rw [done], ?_⟩
    rw [done]
    exact {
      lands := jump
      moved := by
        dsimp only
        rw [written, moved]
      resumes := by
        dsimp only
        rw [written]
        exact encoding.resumes _ tr behind
      frame := by
        dsimp only
        rw [written]
        have sized : len + backLen = len + 5 ∨ len + backLen = len + 7 := by
          rcases encoding.kind with rfl | rfl <;> simp
        exact ⟨len + backLen, sized, mapped, fun a => jumpedImage_outside encoding room⟩
      others := fun t other => Function.update_of_ne other _ _
      armed := fun s name p d same found own => by
        rw [State.hookArmed_found s found, same, own, jump, Option.some.injEq, eq_comm] }

/-- A hook that HookAuto puts in decodes to its detour and back, at every distance; where
it fails, it leaves memory as it was. -/
theorem hookAuto_encodes (k : Kernel) (m : Memory) (target detour : Addr) (len : Nat) (out : Tramp)
    (fresh : Fresh k target len) :
    ((hookAuto k m target detour len out).2 = 0 →
        Hooked k m (hookAuto k m target detour len out).1 target detour len out) ∧
      ((hookAuto k m target detour len out).2 ≠ 0 → hookAuto k m target detour len out = (m, -1)) := by
  have writer : Writer k m target detour len out (hookAuto k m target detour len out) := by
    rw [hookAuto]
    dsimp only
    split
    · exact .inl rfl
    · split
      · exact hookJump_writer fresh (encoding_rel target detour len)
      · split
        · exact hookJump_writer fresh (encoding_abs target detour len)
        · exact .inl rfl
  rcases writer with failed | ⟨done, hooked⟩
  · rw [failed]
    exact ⟨fun zero : (-1 : Int) = 0 => by omega, fun _ => rfl⟩
  · exact ⟨fun _ => hooked, fun other => absurd done other⟩

/-- SV_DoneDownload_f, as the engine holds it. -/
def engineDonedl : Memory := (booted 0x0804EAA4 [0x55, 0x8B, 0xEC, 0x83, 0xEC, 0x10]).memory

theorem hookAuto_encodes_donedl :
    (hookAuto granting engineDonedl 0x0804EAA4 0xF7D01230 6 .donedl).2 = 0 ∧
      Hooked granting engineDonedl (hookAuto granting engineDonedl 0x0804EAA4 0xF7D01230 6 .donedl).1
        0x0804EAA4 0xF7D01230 6 .donedl := by
  have done : (hookAuto granting engineDonedl 0x0804EAA4 0xF7D01230 6 .donedl).2 = 0 := by decide +kernel
  have fresh : Fresh granting 0x0804EAA4 6 := by
    intro size tr mapped a inside covered
    simp only [granting, Option.ite_none_right_eq_some, Option.some.injEq] at mapped
    obtain ⟨small, rfl⟩ := mapped
    simp only [Within] at inside covered
    bv_omega
  exact ⟨done, (hookAuto_encodes granting engineDonedl 0x0804EAA4 0xF7D01230 6 .donedl fresh).1 done⟩

end JaplusProxy.Hooks
