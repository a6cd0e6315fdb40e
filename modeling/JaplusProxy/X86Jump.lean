import JaplusProxy.ByteMemory

/-! Unconditional jumps of 32-bit x86, as bytes and as what a processor makes of
them. Displacements wrap, so a relative jump reaches every address. -/
namespace X86Jump
open ByteMemory

abbrev Addr := BitVec 32

/-- `jmp rel32` at `source` -/
def jumpRel (source dest : Addr) : List UInt8 := 0xE9 :: dword (dest - (source + 5))

/-- `push imm32; ret` -/
def pushRet (dest : Addr) : List UInt8 := 0x68 :: dword dest ++ [0xC3]

/-- `mov eax, imm32; jmp eax` -/
def movJump (dest : Addr) : List UInt8 := 0xB8 :: dword dest ++ [0xFF, 0xE0]

def nops (n : Nat) : List UInt8 := List.replicate n 0x90

@[simp] theorem length_jumpRel : (jumpRel source dest).length = 5 := rfl
@[simp] theorem length_pushRet : (pushRet dest).length = 6 := rfl
@[simp] theorem length_movJump : (movJump dest).length = 7 := rfl
@[simp] theorem length_nops : (nops n).length = n := List.length_replicate

/-- Where control goes from `a` when the code there leaves at once. -/
def landing (m : Image 32) (a : Addr) : Option Addr :=
  if m a = 0xE9 then some (a + 5 + dwordAt m (a + 1))
  else if m a = 0x68 ∧ m (a + 5) = 0xC3 then some (dwordAt m (a + 1))
  else none

/-- A relative jump lands where it was aimed. -/
theorem landing_jumpRel (planted : m.read a 5 = jumpRel a dest) : landing m a = some dest := by
  rw [Image.read_succ] at planted
  obtain ⟨opcode, displacement⟩ := List.cons_eq_cons.mp planted
  rw [landing, if_pos opcode, dwordAt_of_read displacement, BitVec.add_comm, BitVec.sub_add_cancel]

theorem landing_write_jumpRel (m : Image 32) (a dest : Addr) (rest : List UInt8) :
    landing (m.write a (jumpRel a dest ++ rest)) a = some dest := by
  exact landing_jumpRel (m.read_write_append a (jumpRel a dest) rest (by simp))

theorem landing_pushRet (planted : m.read a 6 = pushRet dest) : landing m a = some dest := by
  rw [pushRet, List.cons_append, Image.read_succ] at planted
  obtain ⟨opcode, rest⟩ := List.cons_eq_cons.mp planted
  rw [Image.read_append m (a + 1) 4 1] at rest
  obtain ⟨operand, tail⟩ := List.append_inj rest (by simp [dword])
  have ret : m (a + 5) = 0xC3 := by
    rw [Image.read_succ, BitVec.add_assoc] at tail
    exact (List.cons_eq_cons.mp tail).1
  have other : m a ≠ 0xE9 := by
    rw [opcode]
    decide
  rw [landing, if_neg other, if_pos ⟨opcode, ret⟩, dwordAt_of_read operand]

/-- Where control goes from the jump behind a prefix that was moved away. -/
def resumption (m : Image 32) (a : Addr) : Option Addr :=
  if m a = 0xE9 then some (a + 5 + dwordAt m (a + 1))
  else if m a = 0xB8 ∧ m (a + 5) = 0xFF ∧ m (a + 6) = 0xE0 then some (dwordAt m (a + 1))
  else none

theorem resumption_jumpRel (planted : m.read a 5 = jumpRel a dest) : resumption m a = some dest := by
  have lands := landing_jumpRel planted
  rw [Image.read_succ] at planted
  have opcode := (List.cons_eq_cons.mp planted).1
  rw [landing, if_pos opcode] at lands
  rw [resumption, if_pos opcode, lands]

theorem resumption_movJump (planted : m.read a 7 = movJump dest) : resumption m a = some dest := by
  rw [movJump, List.cons_append, Image.read_succ] at planted
  obtain ⟨opcode, rest⟩ := List.cons_eq_cons.mp planted
  rw [Image.read_append m (a + 1) 4 2] at rest
  obtain ⟨operand, tail⟩ := List.append_inj rest (by simp [dword])
  rw [Image.read_succ, Image.read_succ, BitVec.add_assoc, BitVec.add_assoc] at tail
  obtain ⟨jump, last⟩ := List.cons_eq_cons.mp tail
  have other : m a ≠ 0xE9 := by
    rw [opcode]
    decide
  rw [resumption, if_neg other, if_pos ⟨opcode, jump, (List.cons_eq_cons.mp last).1⟩, dwordAt_of_read operand]

/-! ### Words across a jump -/

/-- A relative jump with nops behind it, over `n` bytes. -/
structure Padded (m : Image 32) (t dest : Addr) (n : Nat) : Prop where
  opcode : m t = 0xE9
  displacement : dwordAt m (t + 1) = dest - (t + 5)
  padding : ∀ k, 5 ≤ k → k < n → m (t + BitVec.ofNat 32 k) = 0x90

theorem padded_of_read {m : Image 32} (planted : m.read t n = jumpRel t dest ++ nops (n - 5)) (long : 5 ≤ n) :
    Padded m t dest n := by
  obtain ⟨extra, rfl⟩ := Nat.exists_eq_add_of_le long
  rw [Nat.add_sub_cancel_left, Image.read_append] at planted
  obtain ⟨jump, rest⟩ := List.append_inj planted (by simp)
  rw [Image.read_succ] at jump
  obtain ⟨opcode, displacement⟩ := List.cons_eq_cons.mp jump
  refine ⟨opcode, dwordAt_of_read displacement, ?_⟩
  intro k low high
  obtain ⟨i, rfl⟩ := Nat.exists_eq_add_of_le low
  have bound : i < extra := by omega
  have byte := Image.read_at m (t + BitVec.ofNat 32 5) extra i (by simpa using bound)
  rw [BitVec.ofNat_add, ← BitVec.add_assoc, ← byte]
  simp [rest, nops]

/-- A word that shares a byte with a planted jump, but has neither its opcode nor a nop
among its bytes, is the displacement. -/
theorem Padded.overlap {m : Image 32} (padded : Padded m t dest n) (long : 5 < n) (small : n ≤ 64)
    (clean : ∀ byte ∈ dword (dwordAt m a), byte ≠ 0xE9 ∧ byte ≠ 0x90) (word : Within a 4 b) (inside : Within t n b) :
    a = t + 1 := by
  have bytes (i : Nat) (low : i < 4) : m (a + BitVec.ofNat 32 i) ≠ 0xE9 ∧ m (a + BitVec.ofNat 32 i) ≠ 0x90 := by
    apply clean
    rw [← read_dwordAt, ← Image.read_at m a 4 i (by simpa using low)]
    exact List.getElem_mem _
  have opcode (i : Nat) (low : i < 4) : a + BitVec.ofNat 32 i ≠ t := by
    intro same
    exact (bytes i low).1 (same ▸ padded.opcode)
  have padding (i k : Nat) (low : i < 4) (five : 5 ≤ k) (high : k < n) :
      a + BitVec.ofNat 32 i ≠ t + BitVec.ofNat 32 k := by
    intro same
    exact (bytes i low).2 (same ▸ padded.padding k five high)
  -- the shared byte is the `j`-th of the word and the `k`-th of the jump
  obtain ⟨j, left⟩ : ∃ j, (b - a).toNat = j := ⟨_, rfl⟩
  obtain ⟨k, right⟩ : ∃ k, (b - t).toNat = k := ⟨_, rfl⟩
  simp only [Within, left, right] at word inside
  by_cases behind : 5 ≤ k
  · exact absurd (by bv_omega) (padding j k word behind inside)
  · by_cases early : k ≤ j
    · exact absurd (by bv_omega) (opcode (j - k) (by omega))
    · by_cases late : j + 2 ≤ k
      · exact absurd (by bv_omega) (padding (5 - (k - j)) 5 (by omega) (Nat.le_refl 5) long)
      · bv_omega

end X86Jump
