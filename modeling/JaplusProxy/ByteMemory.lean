import Mathlib.Algebra.Group.Nat.Defs
import Mathlib.Data.List.GetD

/-! Byte memory over an address space of `w` bits. Address arithmetic wraps, so
that a range may run over the top of memory. Words are little endian. -/
namespace ByteMemory

abbrev Image (w : Nat) := BitVec w → UInt8

variable {w : Nat}

/-- The address lies among the `n` bytes from `base`. -/
def Within (base : BitVec w) (n : Nat) (a : BitVec w) : Prop := (a - base).toNat < n

instance (base : BitVec w) (n : Nat) (a : BitVec w) : Decidable (Within base n a) := Nat.decLt ..

def Image.read (m : Image w) (base : BitVec w) (n : Nat) : List UInt8 :=
  (List.range n).map fun i => m (base + BitVec.ofNat w i)

/-- One byte after the other from `base`. -/
def Image.write (m : Image w) (base : BitVec w) (bytes : List UInt8) : Image w :=
  fun a => bytes.getD (a - base).toNat (m a)

namespace Image
variable (m : Image w) (base : BitVec w)

@[simp] theorem length_read (n : Nat) : (m.read base n).length = n := by simp [read]

theorem read_succ (n : Nat) : m.read base (n + 1) = m base :: m.read (base + 1) n := by
  simp only [read, List.range_succ_eq_map, List.map_cons, List.map_map]
  refine List.cons_eq_cons.mpr ⟨by simp, List.map_congr_left ?_⟩
  intro i _
  simp only [Function.comp_apply]
  congr 1
  rw [Nat.succ_eq_add_one, BitVec.ofNat_add, BitVec.add_assoc, BitVec.add_comm (BitVec.ofNat w i)]
  rfl

theorem read_append (n k : Nat) : m.read base (n + k) = m.read base n ++ m.read (base + BitVec.ofNat w n) k := by
  simp only [read, List.range_add, List.map_append, List.map_map]
  congr 1
  apply List.map_congr_left
  intro i _
  simp only [Function.comp_apply, BitVec.ofNat_add, BitVec.add_assoc]

theorem read_at (n i : Nat) (inside : i < (m.read base n).length) :
    (m.read base n)[i] = m (base + BitVec.ofNat w i) := by
  simp [read]

theorem write_outside (bytes : List UInt8) (outside : ¬ Within base bytes.length a) :
    m.write base bytes a = m a :=
  List.getD_eq_default _ _ (Nat.not_lt.mp outside)

theorem write_append (first second : List UInt8) (inside : Within base first.length a) :
    m.write base (first ++ second) a = m.write base first a :=
  List.getD_append _ _ _ _ inside

theorem sub_offset (i : Nat) (small : i < 2 ^ w) : (base + BitVec.ofNat w i - base).toNat = i := by
  rw [BitVec.add_comm, BitVec.add_sub_cancel, BitVec.toNat_ofNat, Nat.mod_eq_of_lt small]

theorem write_at (bytes : List UInt8) (i : Nat) (small : i < 2 ^ w) (inside : i < bytes.length) :
    m.write base bytes (base + BitVec.ofNat w i) = bytes[i] := by
  rw [write, sub_offset base i small]
  exact List.getD_eq_getElem _ _ inside

/-- What was read at an address of the range. -/
theorem getD_read (n : Nat) (inside : Within base n a) (default : UInt8) :
    (m.read base n).getD (a - base).toNat default = m a := by
  rw [List.getD_eq_getElem _ _ (by rw [length_read]; exact inside)]
  simp only [read, List.getElem_map, List.getElem_range, BitVec.ofNat_toNat, BitVec.setWidth_eq]
  rw [BitVec.add_comm, BitVec.sub_add_cancel]

theorem mem_read (n : Nat) (inside : Within base n a) : m a ∈ m.read base n := by
  have bound : (a - base).toNat < (m.read base n).length := (m.length_read base n).symm ▸ inside
  rw [← m.getD_read base n inside 0, List.getD_eq_getElem _ _ bound]
  exact List.getElem_mem bound

theorem read_congr {m m' : Image w} (same : ∀ a, Within base n a → m a = m' a) :
    m.read base n = m'.read base n := by
  apply List.map_congr_left
  intro i member
  apply same _
  have bound : (base + BitVec.ofNat w i - base).toNat ≤ i := by
    rw [BitVec.add_comm, BitVec.add_sub_cancel, BitVec.toNat_ofNat]
    exact Nat.mod_le ..
  exact Nat.lt_of_le_of_lt bound (List.mem_range.mp member)

/-- Saved bytes put back. -/
theorem write_saved (saved : Image w) (n : Nat) (a : BitVec w) :
    m.write base (saved.read base n) a = if Within base n a then saved a else m a := by
  split
  · rename_i inside
    exact saved.getD_read base n inside _
  · rename_i outside
    exact m.write_outside base _ (by simpa using outside)

theorem read_write (bytes : List UInt8) (small : bytes.length ≤ 2 ^ w) :
    (m.write base bytes).read base bytes.length = bytes := by
  apply List.ext_getElem (length_read ..)
  intro i low high
  simp only [read, List.getElem_map, List.getElem_range]
  exact m.write_at base bytes i (Nat.lt_of_lt_of_le high small) high

theorem read_write_append (first second : List UInt8) (small : first.length ≤ 2 ^ w) :
    (m.write base (first ++ second)).read base first.length = first := by
  have same : (m.write base (first ++ second)).read base first.length = (m.write base first).read base first.length :=
    read_congr base fun _ inside => m.write_append base _ _ inside
  exact same.trans (m.read_write base first small)

end Image

/-! ### Words -/

/-- The `k` low bytes of a number. -/
def encode : Nat → Nat → List UInt8
  | 0, _ => []
  | k + 1, n => UInt8.ofNat n :: encode k (n / 256)

def decode : List UInt8 → Nat
  | [] => 0
  | b :: rest => b.toNat + 256 * decode rest

@[simp] theorem length_encode (k n : Nat) : (encode k n).length = k := by
  induction k generalizing n with
  | zero => rfl
  | succ k ih => rw [encode, List.length_cons, ih]

theorem decode_encode (k n : Nat) : decode (encode k n) = n % 256 ^ k := by
  induction k generalizing n with
  | zero => rw [encode, decode, pow_zero, Nat.mod_one]
  | succ k ih =>
    have low : (UInt8.ofNat n).toNat = n % 256 := UInt8.toNat_ofNat'
    rw [encode, decode, ih, low, pow_succ', Nat.mod_mul]

theorem encode_decode (bytes : List UInt8) : encode bytes.length (decode bytes) = bytes := by
  induction bytes with
  | nil => rfl
  | cons b rest ih =>
    have bound := b.toNat_lt
    have head : UInt8.ofNat (b.toNat + 256 * decode rest) = b := by
      apply UInt8.toNat_inj.mp
      rw [UInt8.toNat_ofNat']
      omega
    have tail : (b.toNat + 256 * decode rest) / 256 = decode rest := by omega
    rw [List.length_cons, decode, encode, head, tail, ih]

theorem decode_lt (bytes : List UInt8) : decode bytes < 256 ^ bytes.length := by
  induction bytes with
  | nil => exact Nat.one_pos
  | cons b rest ih =>
    have bound := b.toNat_lt
    rw [decode, List.length_cons, pow_succ]
    omega

/-- A 32-bit word as memory holds it. -/
def dword (x : BitVec 32) : List UInt8 := encode 4 x.toNat

def dwordAt (m : Image w) (a : BitVec w) : BitVec 32 := BitVec.ofNat 32 (decode (m.read a 4))

theorem dwordAt_of_read {m : Image w} (held : m.read a 4 = dword x) : dwordAt m a = x := by
  rw [dwordAt, held, dword, decode_encode]
  apply BitVec.eq_of_toNat_eq
  rw [BitVec.toNat_ofNat]
  have bound := x.isLt
  omega

theorem read_dwordAt (m : Image w) (a : BitVec w) : m.read a 4 = dword (dwordAt m a) := by
  have bound := decode_lt (m.read a 4)
  rw [Image.length_read] at bound
  have same : (dwordAt m a).toNat = decode (m.read a 4) := by
    rw [dwordAt, BitVec.toNat_ofNat]
    exact Nat.mod_eq_of_lt bound
  have bytes := encode_decode (m.read a 4)
  rw [Image.length_read] at bytes
  rw [dword, same, bytes]

end ByteMemory
