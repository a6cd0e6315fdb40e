import JaplusProxy.Flood.WindowProofs

/-! A rejected call leaves its bucket as it was, so a run without it is the same run. A
call that waits out a period finds the bucket drained by one. -/
namespace JaplusProxy.Flood
open CInt

/-! ### The refresh -/

/-- What every call keeps, wherever the clock stands. -/
structure Sound (maxBurst : Int) (b : Bucket) : Prop where
  burst : 0 ≤ b.burst ∧ b.burst ≤ maxBurst
  clock : int32 b.lastTime = b.lastTime

/-- The time that `lastTime` stands for moves on, to less than a period ago. -/
theorem refresh_stamp (b : Bucket) (positive : 0 < period) (read : b.lastTime = int32 x) (past : x ≤ t)
    (recent : t - x < 4294967296) : ∃ y, (b.refresh period (int32 t)).lastTime = int32 y ∧ x ≤ y ∧ y ≤ t ∧
      t < y + period := by
  have elapsed : int32 (int32 t - b.lastTime) = int32 (t - x) := by rw [read, int32_sub]
  rw [Bucket.refresh, elapsed]
  split
  · exact ⟨t, rfl, past, le_rfl, by omega⟩
  · rename_i kept
    simp only [not_or, not_lt] at kept
    obtain ⟨whole, expired, low, high⟩ := tdiv_tmod kept.2 positive
    have drained := Int.mul_nonneg positive.le expired
    have short := int32_le (x := t - x) (by omega)
    exact ⟨t - (int32 (t - x)).tmod period, int32_sub_left .., by omega, by omega, by omega⟩

/-- Whatever time a reading stood for, the new one lies less than a period ago. -/
theorem refresh_recent (b : Bucket) (positive : 0 < period) (clock : int32 b.lastTime = b.lastTime) (t : Int) :
    ∃ y, (b.refresh period (int32 t)).lastTime = int32 y ∧ y ≤ t ∧ t < y + period := by
  have past := lastRead_range t b.lastTime
  have read : b.lastTime = int32 (lastRead t b.lastTime) := by rw [int32_lastRead, clock]
  obtain ⟨y, stands, _, done, recent⟩ := refresh_stamp b positive read past.1 past.2
  exact ⟨y, stands, done, recent⟩

/-- Without room after the refresh, nothing has drained. -/
theorem refresh_full (sound : Sound maxBurst b) (burst : 0 < maxBurst) (positive : 0 < period)
    (narrow : maxBurst < 2147483648) (full : ¬ (b.refresh period (int32 t)).burst < maxBurst) :
    b.refresh period (int32 t) = b := by
  have range := sound.burst
  rw [Bucket.refresh] at full ⊢
  split at full
  · exact absurd burst full
  · rename_i kept
    rw [if_neg kept]
    simp only [not_or, not_lt] at kept
    obtain ⟨whole, expired, low, high⟩ := tdiv_tmod kept.2 positive
    have left : int32 (b.burst - (int32 (int32 t - b.lastTime)).tdiv period) =
        b.burst - (int32 (int32 t - b.lastTime)).tdiv period := int32_of_range (by omega) (by omega)
    rw [left] at full ⊢
    dsimp only at full
    have none : (int32 (int32 t - b.lastTime)).tdiv period = 0 := by omega
    rw [none, Int.mul_zero, Int.zero_add] at whole
    have back : int32 (int32 t - int32 (int32 t - b.lastTime)) = b.lastTime := by
      rw [int32_sub, ← int32_sub_left, Int.sub_sub_self]
      exact sound.clock
    rw [none, whole, back, Int.sub_zero]

/-! ### One call -/

theorem oobRateLimit_rejected (sound : Sound maxBurst b) (burst : 0 < maxBurst) (positive : 0 < period)
    (narrow : maxBurst < 2147483648) (rejected : (oobRateLimit b maxBurst period (int32 t)).2 = true) :
    (oobRateLimit b maxBurst period (int32 t)).1 = b := by
  rw [oobRateLimit, if_neg (by omega)] at rejected ⊢
  dsimp only at rejected ⊢
  split at rejected
  · cases rejected
  · rename_i full
    rw [if_neg full]
    exact refresh_full sound burst positive narrow full

/-- A call only counts itself on top of the refresh. -/
theorem oobRateLimit_lastTime (burst : 0 < maxBurst) (positive : 0 < period) :
    (oobRateLimit b maxBurst period now).1.lastTime = (b.refresh period now).lastTime := by
  rw [oobRateLimit, if_neg (by omega)]
  dsimp only
  split <;> rfl

theorem oobRateLimit_sound (sound : Sound maxBurst b) (burst : 0 < maxBurst) (positive : 0 < period)
    (narrow : maxBurst < 2147483648) (t : Int) : Sound maxBurst (oobRateLimit b maxBurst period (int32 t)).1 := by
  have range := sound.burst
  have lowered := refresh_burst b (by omega) positive (int32 t)
  constructor
  · rw [oobRateLimit, if_neg (by omega)]
    dsimp only
    split
    · dsimp only
      rw [int32_of_range (by omega) (by omega)]
      omega
    · dsimp only
      omega
  · obtain ⟨y, stands, _⟩ := refresh_recent b positive sound.clock t
    rw [oobRateLimit_lastTime burst positive, stands, int32_idem]

/-- A period after the time that `lastTime` stands for, one packet has drained. -/
theorem oobRateLimit_paced (sound : Sound maxBurst b) (burst : 0 < maxBurst) (positive : 0 < period)
    (narrow : maxBurst < 2147483648) (read : b.lastTime = int32 x) (paced : x + period ≤ t)
    (unwrapped : t - x < 2147483648) : (oobRateLimit b maxBurst period (int32 t)).2 = false := by
  have range := sound.burst
  have elapsed : int32 (int32 t - b.lastTime) = t - x := by
    rw [read, int32_sub, int32_of_range (by omega) unwrapped]
  have drained : 1 ≤ (t - x).tdiv period := by
    rw [Int.tdiv_eq_ediv_of_nonneg (by omega), Int.le_ediv_iff_mul_le positive]
    omega
  have room : (b.refresh period (int32 t)).burst < maxBurst := by
    rw [Bucket.refresh, elapsed]
    split
    · exact burst
    · rename_i kept
      simp only [not_or, not_lt] at kept
      dsimp only
      rw [int32_of_range (by omega) (by omega)]
      omega
  rw [oobRateLimit_pass b ⟨positive, burst⟩ room]

/-! ### Runs -/

/-- The bucket as some calls leave it. -/
def held (b : Bucket) (calls : List Called) : Bucket := (calls.getLast?.map Called.bucket).getD b

theorem held_cons (b : Bucket) (c : Called) (calls : List Called) : held b (c :: calls) = held c.bucket calls := by
  cases calls with
  | nil => rfl
  | cons d calls =>
    rw [held, held, List.getLast?_cons_cons, List.getLast?_eq_some_getLast (List.cons_ne_nil d calls)]
    rfl

/-- The calls less some that were rejected. -/
inductive Thinned : List Called → List Called → Prop where
  | nil : Thinned [] []
  | kept : Thinned calls rest → Thinned (c :: calls) (c :: rest)
  | deleted : c.limited = true → Thinned calls rest → Thinned (c :: calls) rest

/-- No difference of two clock values leaves the range of an `int`. -/
def Unwrapped (last : Int) (times : List Int) : Prop :=
  ∀ t ∈ times, ∀ u ∈ last :: times, -2147483648 ≤ t - u ∧ t - u < 2147483648

section
variable {maxBurst period : Int} {b : Bucket} {times : List Int}
variable (burst : 0 < maxBurst) (narrow : maxBurst < 2147483648) (positive : 0 < period)
include burst narrow positive

theorem bucketRun_inert (sound : Sound maxBurst b)
    (split : bucketRun maxBurst period b times = before ++ c :: after) (rejected : c.limited = true) :
    c.bucket = held b before := by
  induction times generalizing b before with
  | nil => simp [bucketRun] at split
  | cons t times ih =>
    rw [bucketRun_cons] at split
    have next := oobRateLimit_sound sound burst positive narrow t
    cases before with
    | nil =>
      rw [List.nil_append, List.cons.injEq] at split
      obtain ⟨rfl, _⟩ := split
      exact oobRateLimit_rejected sound burst positive narrow rejected
    | cons d before =>
      rw [List.cons_append, List.cons.injEq] at split
      obtain ⟨rfl, rest⟩ := split
      rw [held_cons]
      exact ih next rest

/-- The calls that stay are what a run on their times gives. -/
theorem bucketRun_thinned (sound : Sound maxBurst b) (thinned : Thinned (bucketRun maxBurst period b times) rest) :
    bucketRun maxBurst period b (rest.map Called.time) = rest := by
  induction times generalizing b rest with
  | nil =>
    cases thinned
    rfl
  | cons t times ih =>
    rw [bucketRun_cons] at thinned
    have next := oobRateLimit_sound sound burst positive narrow t
    cases thinned with
    | kept thinned =>
      rw [List.map_cons, bucketRun_cons, ih next thinned]
    | deleted rejected thinned =>
      have same := oobRateLimit_rejected sound burst positive narrow rejected
      rw [same] at thinned
      exact ih sound thinned

/-- No call is limited a period after the one before it. The time that `lastTime` stands
for lies between some clock value and that call, less than a period back. -/
theorem bucketRun_paced (sound : Sound maxBurst b) (ordered : (u :: times).Pairwise (· ≤ ·))
    (unwrapped : ∀ t ∈ times, t - floor < 2147483648) (read : b.lastTime = int32 x) (low : floor ≤ x) (past : x ≤ u)
    (fresh : u < x + period) : ((⟨u, b, limited⟩ : Called) :: bucketRun maxBurst period b times).IsChain
      fun c d => c.time + period ≤ d.time → d.limited = false := by
  induction times generalizing b u x limited with
  | nil => exact .singleton _
  | cons t times ih =>
    obtain ⟨first, rest⟩ := List.pairwise_cons.mp ordered
    have later := first t (.head _)
    have near := unwrapped t (.head _)
    rw [bucketRun_cons]
    constructor
    · intro paced
      dsimp only at paced
      exact oobRateLimit_paced sound burst positive narrow read (by omega) (by omega)
    · obtain ⟨y, stands, on, done, recent⟩ := refresh_stamp b positive read (by omega : x ≤ t) (by omega)
      rw [← oobRateLimit_lastTime burst positive] at stands
      exact ih (oobRateLimit_sound sound burst positive narrow t) rest (fun v member => unwrapped v (.tail _ member))
        stands (by omega) done recent

end

/-- A rejected call leaves the bucket unchanged, so it can be left out of the run; a call
that comes a period after the one before it passes. -/
theorem oobRateLimit_inert (times : List Int) (last : Int) (burst : 0 < maxBurst) (narrow : maxBurst < 2147483648)
    (positive : 0 < period) (ordered : times.Pairwise (· ≤ ·)) (unwrapped : Unwrapped last times) :
    (∀ before c after, bucketRun maxBurst period ⟨0, int32 last⟩ times = before ++ c :: after → c.limited = true →
        c.bucket = held ⟨0, int32 last⟩ before) ∧
      (∀ rest, Thinned (bucketRun maxBurst period ⟨0, int32 last⟩ times) rest →
        bucketRun maxBurst period ⟨0, int32 last⟩ (rest.map Called.time) = rest) ∧
      (bucketRun maxBurst period ⟨0, int32 last⟩ times).IsChain
        fun c d => c.time + period ≤ d.time → d.limited = false := by
  have sound : Sound maxBurst ⟨0, int32 last⟩ := ⟨⟨le_rfl, burst.le⟩, int32_idem last⟩
  refine ⟨fun _ _ _ split rejected => bucketRun_inert burst narrow positive sound split rejected,
    fun _ thinned => bucketRun_thinned burst narrow positive sound thinned, ?_⟩
  cases times with
  | nil => exact .nil
  | cons t times =>
    have next := oobRateLimit_sound sound burst positive narrow t
    have apart := unwrapped t (.head _) last (.head _)
    rw [bucketRun_cons]
    -- a clock behind `last` resets the bucket, else `last` is the floor
    obtain ⟨y, stands, low, done, recent⟩ : ∃ y,
        (oobRateLimit ⟨0, int32 last⟩ maxBurst period (int32 t)).1.lastTime = int32 y ∧ min last t ≤ y ∧ y ≤ t ∧
          t < y + period := by
      rw [oobRateLimit_lastTime burst positive]
      by_cases behind : t < last
      · have negative : int32 (int32 t - int32 last) < 0 := by
          rw [int32_sub, int32_of_range apart.1 apart.2]
          omega
        rw [Bucket.refresh, if_pos (.inr negative)]
        exact ⟨t, rfl, by omega, le_rfl, by omega⟩
      · obtain ⟨y, stands, low, done, recent⟩ :=
          refresh_stamp ⟨0, int32 last⟩ positive rfl (not_lt.mp behind) (by omega)
        exact ⟨y, stands, by omega, done, recent⟩
    refine bucketRun_paced burst narrow positive next ordered (fun v member => ?_) stands low done recent
    have first := unwrapped v (.tail _ member) last (.head _)
    have second := unwrapped v (.tail _ member) t (.tail _ (.head _))
    omega

theorem oobRateLimit_inert_burst :
    (∀ before c after, bucketRun 1 1000 ⟨0, int32 0⟩ [5000, 5000, 6000] = before ++ c :: after → c.limited = true →
        c.bucket = held ⟨0, int32 0⟩ before) ∧
      (∀ rest, Thinned (bucketRun 1 1000 ⟨0, int32 0⟩ [5000, 5000, 6000]) rest →
        bucketRun 1 1000 ⟨0, int32 0⟩ (rest.map Called.time) = rest) ∧
      (bucketRun 1 1000 ⟨0, int32 0⟩ [5000, 5000, 6000]).IsChain
        fun c d => c.time + 1000 ≤ d.time → d.limited = false :=
  oobRateLimit_inert [5000, 5000, 6000] 0 (by decide) (by decide) (by decide) (by decide)
    (by unfold Unwrapped; decide)

end JaplusProxy.Flood
