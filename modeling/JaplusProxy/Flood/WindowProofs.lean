import JaplusProxy.Flood.RateLimitProofs

/-! One bucket under calls at any true times, with a clock that wraps between them:
what it may hold, and how many calls a window lets through. -/
namespace JaplusProxy.Flood
open CInt LeakyMeter

/-- A call, and what it leaves. -/
structure Called where
  time : Int
  bucket : Bucket
  limited : Bool

/-- Calls at true times. -/
def bucketRun (maxBurst period : Int) (b : Bucket) : List Int → List Called
  | [] => []
  | t :: times =>
    let (b, limited) := oobRateLimit b maxBurst period (int32 t)
    ⟨t, b, limited⟩ :: bucketRun maxBurst period b times

/-- The calls among those of the closed window of `width` that return 0. -/
def passes (start width : Int) (calls : List Called) : Nat :=
  admissions start width (calls.map fun c => (c.time, !c.limited))

/-- An empty bucket is a meter that rests since some time before the first call,
wherever the clock stands. -/
theorem reads_empty {times : List Int} (l : Limit) (last : Int) (ordered : times.Pairwise (· ≤ ·)) :
    ∃ m, Reads l ⟨0, int32 last⟩ m ∧ ∀ t ∈ times, m.time ≤ t := by
  have positive := l.burstPositive
  have reads (t : Int) : Reads l ⟨0, int32 last⟩ ⟨0, t - (t - last) % 4294967296⟩ := by
    refine ⟨⟨le_rfl, positive.le⟩, 0, le_rfl, l.periodPositive, ?_, by simp⟩
    unfold int32
    dsimp only
    omega
  cases times with
  | nil => exact ⟨_, reads 0, by simp⟩
  | cons first rest =>
    refine ⟨_, reads first, ?_⟩
    intro t member
    have order : first ≤ t := by
      rcases List.mem_cons.mp member with rfl | member
      · exact le_rfl
      · exact (List.pairwise_cons.mp ordered).1 t member
    dsimp only
    omega

theorem bucketRun_times (maxBurst period : Int) (b : Bucket) (times : List Int) :
    (bucketRun maxBurst period b times).map Called.time = times := by
  induction times generalizing b with
  | nil => rfl
  | cons t times ih => simp [bucketRun, ih]

theorem bucketRun_cons (maxBurst period : Int) (b : Bucket) : bucketRun maxBurst period b (t :: times) =
    ⟨t, (oobRateLimit b maxBurst period (int32 t)).1, (oobRateLimit b maxBurst period (int32 t)).2⟩ ::
      bucketRun maxBurst period (oobRateLimit b maxBurst period (int32 t)).1 times := rfl

section
variable {l : Limit} {b : Bucket} {m : Meter} {times : List Int}
variable (reads : Reads l b m) (later : ∀ t ∈ times, m.time ≤ t) (ordered : times.Pairwise (· ≤ ·))
include reads later ordered

theorem bucketRun_burst : ∀ c ∈ bucketRun l.maxBurst l.period b times,
    0 ≤ c.bucket.burst ∧ c.bucket.burst ≤ l.maxBurst := by
  induction times generalizing b m with
  | nil => simp [bucketRun]
  | cons t times ih =>
    obtain ⟨first, rest⟩ := List.pairwise_cons.mp ordered
    have ahead : ∀ old, some m = some old → old.time ≤ t := fun old same => Option.some.inj same ▸ later t (.head _)
    have tracks : Tracks l b (some m) := reads
    obtain ⟨after, next, clock, _⟩ := oobRateLimit_step l tracks ahead
    rw [bucketRun_cons, List.forall_mem_cons]
    constructor
    · exact next.burst
    · exact ih next (fun u member => clock ▸ first u member) rest

theorem bucketRun_chain (start width : Int) : Chain l.period l.maxBurst start width (some m)
    ((bucketRun l.maxBurst l.period b times).map fun c => (c.time, !c.limited)) := by
  induction times generalizing b m with
  | nil => exact .nil
  | cons t times ih =>
    obtain ⟨first, rest⟩ := List.pairwise_cons.mp ordered
    have ahead : ∀ old, some m = some old → old.time ≤ t := fun old same => Option.some.inj same ▸ later t (.head _)
    have tracks : Tracks l b (some m) := reads
    obtain ⟨after, next, clock, step⟩ := oobRateLimit_step l tracks ahead
    rw [bucketRun_cons, List.map_cons]
    exact .cons (.metered clock step) (ih next (fun u member => clock ▸ first u member) rest)

end

/-- A bucket that starts empty stays within its burst, and a window passes a burst
and one call for each period begun in it. -/
theorem oobRateLimit_window (times : List Int) (last : Int) (burst : 0 < maxBurst) (positive : 0 < period)
    (small : maxBurst * period < 1073741824) (ordered : times.Pairwise (· ≤ ·)) :
    (∀ c ∈ bucketRun maxBurst period ⟨0, int32 last⟩ times, 0 ≤ c.bucket.burst ∧ c.bucket.burst ≤ maxBurst) ∧
      (∀ start, passes start 0 (bucketRun maxBurst period ⟨0, int32 last⟩ times) ≤ maxBurst) ∧
      ∀ start width, 1 ≤ width →
        passes start width (bucketRun maxBurst period ⟨0, int32 last⟩ times) ≤ maxBurst + 1 + (width - 1) / period := by
  let l : Limit := ⟨maxBurst, period, burst, positive, small⟩
  obtain ⟨m, reads, later⟩ := reads_empty l last ordered
  have sorted : ((bucketRun maxBurst period ⟨0, int32 last⟩ times).map
      fun c => (c.time, !c.limited)).Pairwise fun a b => a.1 ≤ b.1 := by
    have same := bucketRun_times maxBurst period ⟨0, int32 last⟩ times
    rw [← same, List.pairwise_map] at ordered
    rwa [List.pairwise_map]
  have window (start width : Int) (forward : 0 ≤ width) :
      passes start width (bucketRun maxBurst period ⟨0, int32 last⟩ times) ≤ maxBurst + 1 + (width - 1) / period :=
    (bucketRun_chain reads later ordered start width).window positive burst.le forward sorted
  refine ⟨bucketRun_burst reads later ordered, ?_, fun start width forward => window start width (by omega)⟩
  intro start
  have instant := window start 0 le_rfl
  have none : (0 - 1) / period = -1 := Int.ediv_eq_neg_one_of_neg_of_le (by decide) (by omega)
  rw [none] at instant
  omega

theorem oobRateLimit_window_instants :
    passes 0 4000 (bucketRun 2 1000 ⟨0, int32 7⟩ [0, 0, 0, 4000, 4294967296]) ≤ (2 : Int) + 1 + (4000 - 1) / 1000 :=
  (oobRateLimit_window [0, 0, 0, 4000, 4294967296] 7 (by decide) (by decide) (by decide) (by decide)).2.2 0 4000
    (by decide)

end JaplusProxy.Flood
