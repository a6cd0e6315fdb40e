import Mathlib.Algebra.BigOperators.Group.Finset.Basic
import Mathlib.Algebra.Order.BigOperators.Group.Finset
import Mathlib.Algebra.Order.Ring.Int

/-! Meters that an admitted packet raises by one period and that drain with the
clock, one unit a millisecond. Rounding to whole packets may overdraw a meter by
less than one period. -/
namespace LeakyMeter

/-- The level right after the packet at `time`. -/
structure Meter where
  level : Int
  time : Int

def gain (period : Int) (passed : Bool) : Int := period * passed.toNat

@[simp] theorem gain_true (period : Int) : gain period true = period := by simp [gain]
@[simp] theorem gain_false (period : Int) : gain period false = 0 := by simp [gain]

/-- One packet: the meter drains no faster than the clock, is overdrawn by less
than a period, and stays under the cap. -/
structure Step (period cap : Int) (before : Option Meter) (passed : Bool) (after : Meter) : Prop where
  drained : ∀ m, before = some m → m.level - (after.time - m.time) ≤ after.level - gain period passed
  overdrawn : 1 - period ≤ after.level - gain period passed
  full : after.level ≤ cap * period

/-- A packet that the meter admits may still be lost behind it. -/
theorem Step.lost (positive : 0 ≤ period) (step : Step period cap before passed after) :
    Step period cap before false after := by
  have raised : 0 ≤ gain period passed := Int.mul_nonneg positive (Int.natCast_nonneg _)
  refine ⟨fun m same => ?_, ?_, step.full⟩
  · have drained := step.drained m same
    rw [gain_false]
    omega
  · have bottom := step.overdrawn
    rw [gain_false]
    omega

/-! ### Windows -/

/-- The packets admitted since `start` show in the level. -/
def Admitted (period start : Int) (count : Nat) : Option Meter → Prop
  | none => count = 0
  | some m => count = 0 ∨ period * count + 1 - period ≤ m.level + (m.time - start)

theorem Admitted.zero (period start : Int) : (m : Option Meter) → Admitted period start 0 m
  | none => rfl
  | some _ => .inl rfl

theorem Admitted.step (counted : Admitted period start count before)
    (step : Step period cap before passed after) (late : start ≤ after.time) :
    Admitted period start (count + passed.toNat) (some after) := by
  have bottom := step.overdrawn
  rcases Nat.eq_zero_or_pos count with rfl | some
  · cases passed with
    | false => exact .inl rfl
    | true =>
      rw [gain_true] at bottom
      right
      simp only [Bool.toNat_true, Nat.zero_add, Nat.cast_one]
      omega
  · cases before with
    | none => exact absurd counted some.ne'
    | some m =>
      have level := counted.resolve_left some.ne'
      have drained := step.drained m rfl
      right
      simp only [gain, Nat.cast_add, Int.mul_add] at drained ⊢
      omega

theorem periods_least (positive : 0 < period) (forward : 0 ≤ width) : -1 ≤ (width - 1) / period := by
  rw [Int.le_ediv_iff_mul_le positive]
  omega

/-- A window of `width` admits a burst, and one packet for every period begun in it. -/
theorem Admitted.window (counted : Admitted period start count (some m)) (positive : 0 < period)
    (room : 0 ≤ cap) (full : m.level ≤ cap * period) (inside : m.time ≤ start + width) (forward : 0 ≤ width) :
    count ≤ cap + 1 + (width - 1) / period := by
  have least := periods_least positive forward
  rcases counted with rfl | level
  · simp only [Nat.cast_zero]
    omega
  · have begun : count - cap - 1 ≤ (width - 1) / period := by
      rw [Int.le_ediv_iff_mul_le positive, Int.sub_mul, Int.sub_mul, Int.mul_comm _ period]
      omega
    omega

/-- A packet at a time, and whether it was admitted. -/
abbrev Observation := Int × Bool

/-- The admissions of the closed window of `width` from `start` on. -/
def admissions (start width : Int) (seen : List Observation) : Nat :=
  seen.countP fun o => o.2 && start ≤ o.1 && o.1 ≤ start + width

/-- How a packet at time `t` leaves a meter that is watched through a window:
metered, or not admitted without reaching it, or anyhow outside the window. -/
inductive Meets (period cap start width t : Int) (passed : Bool) : Option Meter → Option Meter → Prop where
  | metered : m.time = t → Step period cap before passed m → Meets period cap start width t passed before (some m)
  | untouched : passed = false → Meets period cap start width t passed before before
  | outside : t < start ∨ start + width < t → Meets period cap start width t passed before after

inductive Chain (period cap start width : Int) : Option Meter → List Observation → Prop where
  | nil : Chain period cap start width m []
  | cons : Meets period cap start width o.1 o.2 m m' → Chain period cap start width m' rest →
      Chain period cap start width m (o :: rest)

theorem admissions_cons (o : Observation) : admissions start width (o :: rest) =
    (o.2 && start ≤ o.1 && o.1 ≤ start + width).toNat + admissions start width rest := by
  rw [admissions, List.countP_cons, admissions, Nat.add_comm]
  cases o.2 && decide (start ≤ o.1) && decide (o.1 ≤ start + width) <;> rfl

/-- Nothing counts behind the window. -/
theorem admissions_beyond (beyond : ∀ o ∈ seen, start + width < o.1) : admissions start width seen = 0 := by
  apply List.countP_eq_zero.mpr
  intro o member
  have late := beyond o member
  simp only [Bool.and_eq_true, decide_eq_true_eq, not_and, not_le]
  exact fun _ => late

/-- `count` admissions so far, none before the window, and those to come. -/
theorem Chain.counts (chain : Chain period cap start width m seen) (positive : 0 < period) (room : 0 ≤ cap)
    (forward : 0 ≤ width) (ordered : seen.Pairwise fun a b => a.1 ≤ b.1)
    (counted : Admitted period start count m) (fresh : count = 0 ∨ ∀ o ∈ seen, start ≤ o.1)
    (below : (count : Int) ≤ cap + 1 + (width - 1) / period) :
    count + admissions start width seen ≤ cap + 1 + (width - 1) / period := by
  induction seen generalizing m count with
  | nil => simpa [admissions] using below
  | cons o rest ih =>
    obtain ⟨first, tail⟩ := List.pairwise_cons.mp ordered
    rw [admissions_cons]
    cases chain with
    | cons meets chain =>
      by_cases early : o.1 < start
      · -- nothing is counted yet, and whatever the packet did to the meter is forgotten
        have none : count = 0 := fresh.resolve_right fun all => absurd (all o (by simp)) (by omega)
        have head : (o.2 && decide (start ≤ o.1) && decide (o.1 ≤ start + width)) = false := by
          simp [early]
        rw [head, Bool.toNat_false, Nat.zero_add]
        exact ih chain tail (none ▸ Admitted.zero ..) (.inl none) below
      · by_cases beyond : start + width < o.1
        · have late : admissions start width rest = 0 :=
            admissions_beyond fun a member => lt_of_lt_of_le beyond (first a member)
          have head : (o.2 && decide (start ≤ o.1) && decide (o.1 ≤ start + width)) = false := by
            simp [beyond]
          simpa [late, head] using below
        · have following : ∀ a ∈ rest, start ≤ a.1 := fun a member => (not_lt.mp early).trans (first a member)
          have head : (o.2 && decide (start ≤ o.1) && decide (o.1 ≤ start + width)) = o.2 := by
            simp [not_lt.mp early, not_lt.mp beyond]
          rw [head]
          cases meets with
          | metered clock step =>
            have next := counted.step step (by omega)
            have bound := next.window positive room step.full (by omega) forward
            have all := ih chain tail next (.inr following) bound
            push_cast at all ⊢
            omega
          | untouched rejected =>
            rw [rejected, Bool.toNat_false, Nat.zero_add]
            exact ih chain tail counted (.inr following) below
          | outside apart => omega

/-- The window bound, whatever the meter held before the window. -/
theorem Chain.window (chain : Chain period cap start width m seen) (positive : 0 < period) (room : 0 ≤ cap)
    (forward : 0 ≤ width) (ordered : seen.Pairwise fun a b => a.1 ≤ b.1) :
    admissions start width seen ≤ cap + 1 + (width - 1) / period := by
  have least := periods_least positive forward
  simpa using chain.counts positive room forward ordered (Admitted.zero ..) (.inl rfl)
    (by simp only [Nat.cast_zero]; omega)

/-! ### Many meters behind one -/

/-- What a meter still holds at a time, rounded up to a whole packet. -/
def pending (period t : Int) : Option Meter → Int
  | none => 0
  | some m => max (m.level - (t - m.time) + (period - 1)) 0

theorem pending_nonneg (period t : Int) (m : Option Meter) : 0 ≤ pending period t m := by
  cases m with
  | none => exact le_rfl
  | some m => exact le_max_right ..

theorem pending_elapse (period : Int) (m : Option Meter) (later : t ≤ u) :
    pending period t m - (u - t) ≤ pending period u m := by
  cases m with
  | none =>
    simp only [pending]
    omega
  | some m =>
    simp only [pending]
    omega

theorem pending_step (step : Step period cap before passed after) :
    pending period after.time before + gain period passed ≤ pending period after.time (some after) := by
  have bottom := step.overdrawn
  cases before with
  | none =>
    simp only [pending]
    omega
  | some m =>
    have drained := step.drained m rfl
    simp only [pending]
    omega

variable {ι : Type} {sources : Finset ι} {meters : ι → Option Meter}

/-- A shared count that drains by one a millisecond is covered by what the meters hold. -/
def Covered (period : Int) (sources : Finset ι) (meters : ι → Option Meter) (t shared : Int) : Prop :=
  period * shared ≤ ∑ a ∈ sources, pending period t (meters a)

theorem Covered.elapse (covered : Covered period sources meters t shared) (few : sources.card ≤ period)
    (later : t ≤ u) : Covered period sources meters u (max (shared - (u - t)) 0) := by
  have positive : 0 ≤ ∑ a ∈ sources, pending period u (meters a) :=
    Finset.sum_nonneg fun a _ => pending_nonneg ..
  have each : ∑ a ∈ sources, pending period t (meters a) - sources.card * (u - t) ≤
      ∑ a ∈ sources, pending period u (meters a) := by
    have total := Finset.sum_le_sum fun a (_ : a ∈ sources) => pending_elapse period (meters a) later
    rw [Finset.sum_sub_distrib, Finset.sum_const, nsmul_eq_mul] at total
    exact total
  have drain : sources.card * (u - t) ≤ period * (u - t) :=
    Int.mul_le_mul_of_nonneg_right few (by omega)
  simp only [Covered] at covered ⊢
  rcases le_total (shared - (u - t)) 0 with empty | rest
  · rw [max_eq_right empty]
    omega
  · rw [max_eq_left rest, Int.mul_sub]
    omega

theorem Covered.step [DecidableEq ι] (covered : Covered period sources meters after.time shared) (member : a ∈ sources)
    (step : Step period cap (meters a) passed after) :
    Covered period sources (Function.update meters a (some after)) after.time (shared + passed.toNat) := by
  have raised := pending_step step
  have others : ∑ b ∈ sources.erase a, pending period after.time (Function.update meters a (some after) b) =
      ∑ b ∈ sources.erase a, pending period after.time (meters b) :=
    Finset.sum_congr rfl fun b inside => by rw [Function.update_of_ne (Finset.ne_of_mem_erase inside)]
  simp only [Covered, ← Finset.add_sum_erase _ _ member] at covered ⊢
  rw [others, Function.update_self, Int.mul_add]
  simp only [gain] at raised
  omega

/-- Full meters hold no more than this together. -/
theorem Covered.bound (cap : Int) (covered : Covered period sources meters t shared) (room : 0 ≤ cap * period + (period - 1))
    (full : ∀ a ∈ sources, ∀ m, meters a = some m → m.level ≤ cap * period ∧ m.time ≤ t) :
    period * shared ≤ sources.card * (cap * period + (period - 1)) := by
  apply covered.trans
  rw [← nsmul_eq_mul]
  apply Finset.sum_le_card_nsmul _ _ _
  intro a member
  cases reading : meters a with
  | none => exact room
  | some m =>
    have := full a member m reading
    simp only [pending]
    omega

end LeakyMeter
