import JaplusProxy.Flood.RateLimit
import JaplusProxy.LeakyMeter

/-! A bucket is a meter read in whole packets: `burst` periods, less what the
remainder has drained since the last packet. The clock may wrap between packets;
a bucket then drains too little, never too much. -/
namespace JaplusProxy.Flood
open CInt LeakyMeter

/-- A limit whose burst stays far from the ends of `int`. -/
structure Limit where
  maxBurst : Int
  period : Int
  burstPositive : 0 < maxBurst
  periodPositive : 0 < period
  small : maxBurst * period < 1073741824

namespace Limit
variable (l : Limit)

theorem maxBurst_le : l.maxBurst ≤ l.maxBurst * l.period :=
  le_mul_of_one_le_right l.burstPositive.le l.periodPositive

end Limit

/-- A bucket at its last packet. -/
structure Reads (l : Limit) (b : Bucket) (m : Meter) : Prop where
  burst : 0 ≤ b.burst ∧ b.burst ≤ l.maxBurst
  level : ∃ remainder, 0 ≤ remainder ∧ remainder < l.period ∧ b.lastTime = int32 (m.time - remainder) ∧
    m.level = l.period * b.burst - remainder

/-- A bucket before its first packet is all zero. -/
def Tracks (l : Limit) (b : Bucket) : Option Meter → Prop
  | none => b = {}
  | some m => Reads l b m

theorem Reads.full (reads : Reads l b m) : m.level ≤ l.maxBurst * l.period := by
  obtain ⟨r, low, _, _, level⟩ := reads.level
  have bound := Int.mul_le_mul_of_nonneg_left reads.burst.2 l.periodPositive.le
  rw [Int.mul_comm l.maxBurst, level]
  omega

/-! ### The refresh -/

/-- What the refresh leaves at time `t`, before the packet is judged. -/
structure Refreshed (l : Limit) (before : Option Meter) (t : Int) (b : Bucket) (m : Meter) : Prop where
  reads : Reads l b m
  time : m.time = t
  drained : ∀ old, before = some old → old.level - (t - old.time) ≤ m.level
  overdrawn : 1 - l.period ≤ m.level

theorem Tracks.burst (tracks : Tracks l b before) : 0 ≤ b.burst ∧ b.burst ≤ l.maxBurst := by
  cases before with
  | none =>
    have positive := l.burstPositive
    rw [show b = {} from tracks]
    dsimp only
    omega
  | some old => exact Reads.burst tracks

/-- How long the clock ran since the level was a whole number of packets. -/
theorem Tracks.drain (tracks : Tracks l b (some old)) (later : old.time ≤ t) : ∃ remainder, 0 ≤ remainder ∧
    old.level = l.period * b.burst - remainder ∧ old.time ≤ t ∧
      int32 (int32 t - b.lastTime) = int32 (t - old.time + remainder) := by
  obtain ⟨r, low, _, last, level⟩ := Reads.level tracks
  refine ⟨r, low, level, later, ?_⟩
  rw [last, int32_sub]
  congr 1
  omega

/-- The clock ran for the whole burst, or has wrapped: nothing is left of the meter. -/
theorem refresh_reset (l : Limit) (tracks : Tracks l b before) (later : ∀ old, before = some old → old.time ≤ t)
    (reset : b.burst < (int32 (int32 t - b.lastTime)).tdiv l.period ∨ int32 (int32 t - b.lastTime) < 0) :
    Refreshed l before t ⟨0, int32 t⟩ ⟨0, t⟩ := by
  have positive := l.periodPositive
  have burst := tracks.burst
  refine ⟨⟨⟨le_rfl, l.burstPositive.le⟩, 0, le_rfl, positive, by simp, by simp⟩, rfl, ?_, by dsimp only; omega⟩
  rintro old rfl
  obtain ⟨r, low, level, order, wrapped⟩ := tracks.drain (later old rfl)
  have ceiling := Int.mul_le_mul_of_nonneg_left burst.2 positive.le
  rw [Int.mul_comm _ l.maxBurst] at ceiling
  have small := l.small
  generalize int32 (int32 t - b.lastTime) = interval at reset wrapped
  dsimp only
  by_cases negative : interval < 0
  · have far := le_of_int32_neg (by omega) (wrapped ▸ negative)
    omega
  · have short := reset.resolve_right negative
    obtain ⟨whole, _, remainder, _⟩ := tdiv_tmod (not_lt.mp negative) positive
    have more := Int.mul_le_mul_of_nonneg_left short positive.le
    rw [Int.mul_add] at more
    have bounded := int32_le (x := t - old.time + r) (by omega)
    omega

/-- What has drained comes off the burst, and the remainder stays for the next packet. -/
theorem refresh_kept (l : Limit) (tracks : Tracks l b before) (later : ∀ old, before = some old → old.time ≤ t)
    (kept : (int32 (int32 t - b.lastTime)).tdiv l.period ≤ b.burst ∧ 0 ≤ int32 (int32 t - b.lastTime)) :
    ∃ m, Refreshed l before t
      ⟨int32 (b.burst - (int32 (int32 t - b.lastTime)).tdiv l.period),
        int32 (int32 t - (int32 (int32 t - b.lastTime)).tmod l.period)⟩ m := by
  have positive := l.periodPositive
  have burst := tracks.burst
  have small := l.small
  have narrow := l.maxBurst_le
  have ceiling := Int.mul_le_mul_of_nonneg_left burst.2 positive.le
  rw [Int.mul_comm _ l.maxBurst] at ceiling
  have drain := fun old (same : before = some old) => (same ▸ tracks : Tracks l b (some old)).drain (later old same)
  generalize int32 (int32 t - b.lastTime) = interval at drain kept ⊢
  obtain ⟨whole, expired, low, high⟩ := tdiv_tmod kept.2 positive
  have left : int32 (b.burst - interval.tdiv l.period) = b.burst - interval.tdiv l.period :=
    int32_of_range (by omega) (by omega)
  rw [left, int32_sub_left]
  have drainedLevel : l.period * (b.burst - interval.tdiv l.period) - interval.tmod l.period =
      l.period * b.burst - interval := by
    rw [Int.mul_sub]
    omega
  have rest : 0 ≤ l.period * (b.burst - interval.tdiv l.period) := Int.mul_nonneg positive.le (by omega)
  refine ⟨⟨l.period * b.burst - interval, t⟩, ⟨⟨⟨?_, ?_⟩, _, low, high, rfl, drainedLevel.symm⟩, rfl, ?_, ?_⟩⟩
  · dsimp only
    omega
  · dsimp only
    omega
  · intro old same
    obtain ⟨r, _, level, order, wrapped⟩ := drain old same
    have bounded := int32_le (x := t - old.time + r) (by omega)
    dsimp only
    omega
  · dsimp only
    omega

theorem refresh_spec (l : Limit) (tracks : Tracks l b before)
    (later : ∀ old, before = some old → old.time ≤ t) :
    ∃ m, Refreshed l before t (b.refresh l.period (int32 t)) m := by
  rw [Bucket.refresh]
  split
  · rename_i reset
    exact ⟨_, refresh_reset l tracks later reset⟩
  · rename_i kept
    simp only [not_or, not_lt] at kept
    exact refresh_kept l tracks later kept

/-- A whole number of periods without a wrap. -/
theorem refresh_periods (low : 0 ≤ n) (kept : n ≤ g) (small : g < 2147483648) (positive : 0 < period)
    (start : 0 ≤ t) (stop : t + period * n < 2147483648) :
    (⟨g, t⟩ : Bucket).refresh period (t + period * n) = ⟨g - n, t + period * n⟩ := by
  have more := Int.mul_nonneg positive.le low
  have elapsed : int32 (t + period * n - t) = period * n := by
    rw [int32_of_range (by omega) (by omega)]
    omega
  simp only [Bucket.refresh, elapsed, Int.mul_tdiv_cancel_left _ positive.ne', Int.mul_tmod_right, Int.sub_zero]
  rw [if_neg (by omega), int32_of_range (by omega) (by omega), int32_of_range (by omega) (by omega)]

/-- A refresh only lowers the burst. -/
theorem refresh_burst (b : Bucket) (range : 0 ≤ b.burst ∧ b.burst < 2147483648) (positive : 0 < period) (now : Int) :
    0 ≤ (b.refresh period now).burst ∧ (b.refresh period now).burst ≤ b.burst := by
  rw [Bucket.refresh]
  split
  · exact ⟨le_rfl, range.1⟩
  · rename_i kept
    simp only [not_or, not_lt] at kept
    obtain ⟨_, expired, _⟩ := tdiv_tmod kept.2 positive
    dsimp only
    rw [int32_of_range (by omega) (by omega)]
    omega

/-! ### The limit -/

theorem oobRateLimit_pass (b : Bucket) (positive : 0 < period ∧ 0 < maxBurst)
    (room : (b.refresh period now).burst < maxBurst) : oobRateLimit b maxBurst period now =
      (⟨int32 ((b.refresh period now).burst + 1), (b.refresh period now).lastTime⟩, false) := by
  rw [oobRateLimit, if_neg (by omega)]
  exact if_pos room

/-- One packet at true time `t` is one step of the meter. -/
theorem oobRateLimit_step (l : Limit) (tracks : Tracks l b before)
    (later : ∀ old, before = some old → old.time ≤ t) :
    ∃ after, Tracks l (oobRateLimit b l.maxBurst l.period (int32 t)).1 (some after) ∧ after.time = t ∧
      Step l.period l.maxBurst before (!(oobRateLimit b l.maxBurst l.period (int32 t)).2) after := by
  obtain ⟨m, refreshed⟩ := refresh_spec l tracks later
  have positive := l.periodPositive
  have small := l.small
  have narrow := l.maxBurst_le
  have burst := refreshed.reads.burst
  have valid : ¬ (l.period ≤ 0 ∨ l.maxBurst ≤ 0) := by
    have := l.burstPositive
    omega
  obtain ⟨r, low, high, last, level⟩ := refreshed.reads.level
  rw [oobRateLimit, if_neg valid]
  dsimp only
  by_cases room : (b.refresh l.period (int32 t)).burst < l.maxBurst
  · have up : int32 ((b.refresh l.period (int32 t)).burst + 1) = (b.refresh l.period (int32 t)).burst + 1 :=
      int32_of_range (by omega) (by omega)
    rw [if_pos room, up]
    have reads : Reads l ⟨(b.refresh l.period (int32 t)).burst + 1, (b.refresh l.period (int32 t)).lastTime⟩
        ⟨m.level + l.period, m.time⟩ := by
      refine ⟨⟨by dsimp only; omega, by dsimp only; omega⟩, r, low, high, last, ?_⟩
      dsimp only
      rw [Int.mul_add, level]
      omega
    refine ⟨_, reads, refreshed.time, ⟨?_, ?_, reads.full⟩⟩
    · intro old same
      have drained := refreshed.drained old same
      simp only [Bool.not_false, gain_true, refreshed.time]
      omega
    · have overdrawn := refreshed.overdrawn
      simp only [Bool.not_false, gain_true]
      omega
  · rw [if_neg room]
    refine ⟨m, refreshed.reads, refreshed.time, ⟨?_, ?_, refreshed.reads.full⟩⟩
    · intro old same
      have drained := refreshed.drained old same
      simp only [Bool.not_true, gain_false, refreshed.time]
      omega
    · have overdrawn := refreshed.overdrawn
      simp only [Bool.not_true, gain_false]
      omega

end JaplusProxy.Flood
