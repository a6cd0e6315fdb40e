import Mathlib.Algebra.Order.Ring.Int

/-! C `int` arithmetic in two's complement, with 32 bits. -/
namespace CInt

/-- The `int` with the same low 32 bits. -/
def int32 (x : Int) : Int := (x + 2147483648) % 4294967296 - 2147483648

theorem int32_of_range (low : -2147483648 ≤ x) (high : x < 2147483648) : int32 x = x := by
  unfold int32
  omega

@[simp] theorem int32_sub (x y : Int) : int32 (int32 x - int32 y) = int32 (x - y) := by
  unfold int32
  omega

@[simp] theorem int32_sub_left (x y : Int) : int32 (int32 x - y) = int32 (x - y) := by
  unfold int32
  omega

@[simp] theorem int32_idem (x : Int) : int32 (int32 x) = int32 x := by
  unfold int32
  omega

theorem int32_add_left (x y : Int) : int32 (int32 x + y) = int32 (x + y) := by
  unfold int32
  omega

/-- A difference that is not negative wraps to itself or to less. -/
theorem int32_le (positive : 0 ≤ x) : int32 x ≤ x := by
  unfold int32
  omega

/-- It wraps to a negative one only from `2^31` on. -/
theorem le_of_int32_neg (positive : 0 ≤ x) (negative : int32 x < 0) : 2147483648 ≤ x := by
  unfold int32 at negative
  omega

/-- Quotient and remainder of a difference that is not negative. -/
theorem tdiv_tmod {x p : Int} (positive : 0 ≤ x) (period : 0 < p) :
    p * x.tdiv p + x.tmod p = x ∧ 0 ≤ x.tdiv p ∧ 0 ≤ x.tmod p ∧ x.tmod p < p :=
  ⟨Int.mul_tdiv_add_tmod x p, Int.tdiv_nonneg positive period.le, Int.tmod_nonneg p positive,
    Int.tmod_lt_of_pos x period⟩

/-! ### A clock that wraps -/

/-- How often a clock has wrapped when it stands at a true time. -/
def epoch (x : Int) : Int := (x + 2147483648) / 4294967296

theorem int32_epoch (x : Int) : int32 x = x - 4294967296 * epoch x := by
  unfold int32 epoch
  omega

/-- Without a wrap in between, readings order as the times do. -/
theorem int32_lt_iff (same : epoch x = epoch y) : int32 x < int32 y ↔ x < y := by
  rw [int32_epoch, int32_epoch, same]
  omega

/-- After a wrap the later time reads less, for a whole turn of the clock. -/
theorem int32_lt_of_epoch (wrapped : epoch x < epoch y) (near : y - x < 4294967296) : int32 y < int32 x := by
  rw [int32_epoch, int32_epoch]
  omega

/-- The last time up to `now` at which the clock has read `reading`. -/
def lastRead (now reading : Int) : Int := now - (now - reading) % 4294967296

theorem lastRead_int32 (past : x ≤ now) (recent : now - x < 4294967296) : lastRead now (int32 x) = x := by
  unfold lastRead int32
  omega

theorem int32_lastRead (now reading : Int) : int32 (lastRead now reading) = int32 reading := by
  unfold lastRead int32
  omega

/-- It lies less than a turn of the clock back. -/
theorem lastRead_range (now reading : Int) : lastRead now reading ≤ now ∧ now - lastRead now reading < 4294967296 := by
  unfold lastRead
  omega

end CInt
