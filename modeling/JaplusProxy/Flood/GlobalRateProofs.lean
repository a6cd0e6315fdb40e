import JaplusProxy.Flood.Detours
import JaplusProxy.Flood.TableProofs

/-! The rate of all sources together under constant settings. The bucket leaks one
packet every `1000 / rate` milliseconds, rounded down: the configured rate is met
exactly when it divides the second, and a smaller period admits more. -/
namespace JaplusProxy.Flood
open CString CInt LeakyMeter

/-! ### Settings -/

def rateIp (cvar : Bytes → Int) : Int := clampRate (cvar (lit "sv_maxOOBRateIP")) 1
def rateAll (cvar : Bytes → Int) : Int := clampRate (cvar (lit "sv_maxOOBRate")) 1000

/-- The settings are those of the cvars, or still to be read. -/
def Configured (cvar : Bytes → Int) (s : Oob) : Prop :=
  s.cfgTime ≠ 0 → s.cfgIp = rateIp cvar ∧ s.cfgAll = rateAll cvar

theorem clampRate_self (low : 1 ≤ v) (high : v ≤ 1000) : clampRate v absent = v := by
  unfold clampRate
  split_ifs <;> omega

theorem oobRefreshCfg_spec (configured : Configured cvar s) (now : Int) :
    ∃ t, oobRefreshCfg s cvar now = { s with cfgIp := rateIp cvar, cfgAll := rateAll cvar, cfgTime := t } := by
  unfold oobRefreshCfg
  split
  · rename_i fresh
    obtain ⟨ip, all⟩ := configured fresh.1
    exact ⟨s.cfgTime, by rw [← ip, ← all]⟩
  · exact ⟨now, rfl⟩

/-- A packet that is not exempt: the limit of its address, then that of all. -/
structure Gated (cvar : Bytes → Int) (s : Oob) (ipi : UInt32) (now : Int) (result : Oob × Bool) : Prop where
  table : result.1.table = (rateLimitFor s.table ipi (10 * rateIp cvar) (Int.tdiv 1000 (rateIp cvar)) now).1
  configured : Configured cvar result.1
  dropped : (rateLimitFor s.table ipi (10 * rateIp cvar) (Int.tdiv 1000 (rateIp cvar)) now).2 = true →
    result.2 = true ∧ result.1.globalBucket = s.globalBucket
  judged : (rateLimitFor s.table ipi (10 * rateIp cvar) (Int.tdiv 1000 (rateIp cvar)) now).2 = false →
    (result.1.globalBucket, result.2) =
      oobRateLimit s.globalBucket (rateAll cvar) (Int.tdiv 1000 (rateAll cvar)) now

theorem oobShouldDrop_spec (configured : Configured cvar s) (other : ipi ≠ loopback) (now : Int) :
    Gated cvar s ipi now (oobShouldDrop s cvar ipi now) := by
  obtain ⟨t, refreshed⟩ := oobRefreshCfg_spec configured now
  rw [oobShouldDrop, if_neg other, refreshed]
  dsimp only
  cases limited : (rateLimitFor s.table ipi (10 * rateIp cvar) (Int.tdiv 1000 (rateIp cvar)) now).2 with
  | true => exact ⟨rfl, fun _ => ⟨rfl, rfl⟩, fun _ => ⟨rfl, rfl⟩, fun kept => absurd (limited.symm.trans kept) (by decide)⟩
  | false => exact ⟨rfl, fun _ => ⟨rfl, rfl⟩, fun gone => absurd (limited.symm.trans gone) (by decide), fun _ => rfl⟩

theorem configured_start (cvar : Bytes → Int) : Configured cvar {} := fun read => absurd rfl read

/-! ### The period of a rate -/

theorem second_tdiv (low : 1 ≤ r) (high : r ≤ 1000) : 0 < Int.tdiv 1000 r ∧ r * Int.tdiv 1000 r ≤ 1000 := by
  obtain ⟨whole, quotient, remainder, small⟩ := tdiv_tmod (by decide : (0 : Int) ≤ 1000) (by omega : 0 < r)
  refine ⟨?_, by omega⟩
  by_contra zero
  rw [show Int.tdiv 1000 r = 0 by omega] at whole
  omega

/-- The period is exact for the rates that divide the second. -/
theorem second_exact (low : 1 ≤ r) : r * Int.tdiv 1000 r = 1000 ↔ r ∣ 1000 := by
  obtain ⟨whole, _, remainder, small⟩ := tdiv_tmod (by decide : (0 : Int) ≤ 1000) (by omega : 0 < r)
  rw [Int.dvd_iff_tmod_eq_zero]
  omega

/-- The limit of all sources at a rate. -/
def globalLimit (r : Int) (low : 1 ≤ r) (high : r ≤ 1000) : Limit where
  maxBurst := r
  period := Int.tdiv 1000 r
  burstPositive := by omega
  periodPositive := (second_tdiv low high).1
  small := lt_of_le_of_lt (second_tdiv low high).2 (by decide)

/-! ### Rates that divide the second -/

/-- The run as the meter of all sources sees it. -/
theorem oobRun_chain (low : 1 ≤ r) (high : r ≤ 1000) (rate : rateAll cvar = r) (configured : Configured cvar s)
    (tracks : Tracks (globalLimit r low high) s.globalBucket m)
    (earlier : ∀ old, m = some old → ∀ p ∈ ps, old.time ≤ p.time) (ordered : Ordered ps)
    (outside : ∀ p ∈ ps, p.ip ≠ loopback) (start width : Int) :
    Chain (Int.tdiv 1000 r) r start width m ((oobRun cvar s ps).map fun fate => (fate.1.time, fate.2 && true)) := by
  induction ps generalizing s m with
  | nil => exact .nil
  | cons p ps ih =>
    obtain ⟨first, rest⟩ := List.pairwise_cons.mp ordered
    rw [List.forall_mem_cons] at outside
    have gated := oobShouldDrop_spec configured outside.1 p.now
    rw [oobRun, List.map_cons]
    cases limited : (rateLimitFor s.table p.ip (10 * rateIp cvar) (Int.tdiv 1000 (rateIp cvar)) p.now).2 with
    | true =>
      obtain ⟨drop, same⟩ := gated.dropped limited
      refine .cons (.untouched (by simp [drop])) (ih gated.configured (same ▸ tracks) ?_ rest outside.2)
      exact fun old is q member => earlier old is q (by simp [member])
    | false =>
      have judged := gated.judged limited
      rw [rate] at judged
      obtain ⟨after, next, clock, step⟩ :=
        oobRateLimit_step (globalLimit r low high) tracks fun old is => earlier old is p (by simp)
      have limited : oobRateLimit s.globalBucket (globalLimit r low high).maxBurst
          (globalLimit r low high).period (int32 p.time) =
          ((oobShouldDrop s cvar p.ip p.now).1.globalBucket, (oobShouldDrop s cvar p.ip p.now).2) := judged.symm
      rw [limited] at next step
      refine .cons (.metered clock ?_) (ih gated.configured next ?_ rest outside.2)
      · rw [Bool.and_true]
        exact step
      · intro old is q member
        rw [← Option.some.inj is, clock]
        exact first q member

theorem oobRun_packets (cvar : Bytes → Int) (s : Oob) (ps : List Packet) : (oobRun cvar s ps).map Prod.fst = ps := by
  induction ps generalizing s with
  | nil => rfl
  | cons p ps ih => simp [oobRun, ih]

/-- The configured rate is kept: at most a burst and `r` packets a second, one more
for the rounding, in every window of every run. -/
def KeepsRate (r : Int) : Prop :=
  ∀ cvar, cvar (lit "sv_maxOOBRate") = r → ∀ ps, Ordered ps → (∀ p ∈ ps, p.ip ≠ loopback) →
    ∀ start width, 0 ≤ width →
      1000 * passedIn (fun _ => true) start width (oobRun cvar {} ps) ≤ 1000 * (r + 1) + r * width

theorem keepsRate_of_dvd (low : 1 ≤ r) (high : r ≤ 1000) (divides : r ∣ 1000) : KeepsRate r := by
  intro cvar read ps ordered outside start width forward
  have rate : rateAll cvar = r := by rw [rateAll, read, clampRate_self low high]
  have chain := oobRun_chain low high rate (configured_start cvar) (m := none) rfl (by simp) ordered outside start width
  have bound := chain.window (second_tdiv low high).1 (by omega) forward (ordered.times (oobRun_packets cvar {} ps) fun _ => true)
  have exact := (second_exact low).mpr divides
  -- a period begun in the window lasts into it, and `r` of them make a second
  have begun := Int.mul_le_mul_of_nonneg_left
    (Int.ediv_mul_le (width - 1) (second_tdiv low high).1.ne') (by omega : 0 ≤ r)
  rw [Int.mul_left_comm, exact] at begun
  rw [passedIn]
  rw [Int.mul_sub] at begun
  omega

/-! ### Rates that do not -/

/-- One address, after `sent` packets; its own limit is far away. -/
structure Idle (cvar : Bytes → Int) (a : UInt32) (sent : Int) (s : Oob) : Prop where
  packed : Packed s.table
  filled : s.table ≠ []
  configured : Configured cvar s
  burst : 0 ≤ ((bucketOf s.table a).getD {}).burst ∧ ((bucketOf s.table a).getD {}).burst ≤ sent

/-- The packet passes both limits when there is room under the second. -/
theorem Idle.pass (idle : Idle cvar a sent s) (outside : a ≠ loopback) (fast : rateIp cvar = 1000)
    (few : sent < 10000) (rate : rateAll cvar = r) (low : 1 ≤ r) (high : r ≤ 1000)
    (refreshed : s.globalBucket.refresh (Int.tdiv 1000 r) now = ⟨g, t⟩) (positive : 0 ≤ g) (room : g < r) :
    (oobShouldDrop s cvar a now).2 = false ∧ Idle cvar a (sent + 1) (oobShouldDrop s cvar a now).1 ∧
      (oobShouldDrop s cvar a now).1.globalBucket = ⟨g + 1, t⟩ := by
  have gated := oobShouldDrop_spec idle.configured outside now
  have bound := idle.burst
  obtain ⟨verdict, served⟩ := rateLimitFor_spec a 10000 1 now idle.packed idle.filled
  have level := refresh_burst ((bucketOf s.table a).getD {}) (by omega) (by decide : (0 : Int) < 1) now
  rw [oobRateLimit_pass _ (by decide) (by omega)] at verdict served
  have table := gated.table
  have judged := gated.judged
  rw [fast, rate] at judged
  rw [fast] at table
  have admitted := judged verdict
  rw [oobRateLimit_pass _ ⟨(second_tdiv low high).1, by omega⟩ (by rw [refreshed]; exact room), refreshed] at admitted
  obtain ⟨bucket, passed⟩ := Prod.mk.inj admitted
  refine ⟨passed, ⟨table ▸ served.packed, table ▸ served.filled idle.filled, gated.configured, ?_⟩, ?_⟩
  · rw [table]
    have self : bucketOf (rateLimitFor s.table a (10 * 1000) (Int.tdiv 1000 1000) now).1 a = _ := served.self
    rw [self, Option.getD_some]
    dsimp only
    rw [int32_of_range (by omega) (by omega)]
    omega
  · rw [bucket, int32_of_range (by dsimp only; omega) (by dsimp only; omega)]

/-- One packet a period. -/
def beats (a : UInt32) (period : Int) : Int → Nat → List Packet
  | _, 0 => []
  | last, k + 1 => ⟨a, last + period⟩ :: beats a period (last + period) k

/-- A full burst at once, and then one packet a period. -/
def paced (a : UInt32) (r : Int) : List Packet :=
  List.replicate r.toNat ⟨a, 0⟩ ++ beats a (Int.tdiv 1000 r) 0 1001

/-- The settings of a paced run: the limit for one address at its widest. -/
def pacedCvar (r : Int) (name : Bytes) : Int := if name = lit "sv_maxOOBRate" then r else 1000

theorem oobRun_burst (k : Nat) (outside : a ≠ loopback) (fast : rateIp cvar = 1000) (rate : rateAll cvar = r)
    (low : 1 ≤ r) (high : r ≤ 1000) (idle : Idle cvar a g s) (level : s.globalBucket = ⟨g, 0⟩)
    (positive : 0 ≤ g) (room : g + k ≤ r) :
    ∃ t, Idle cvar a (g + k) t ∧ t.globalBucket = ⟨g + k, 0⟩ ∧ ∀ rest,
      oobRun cvar s (List.replicate k ⟨a, 0⟩ ++ rest) = List.replicate k (⟨a, 0⟩, true) ++ oobRun cvar t rest := by
  induction k generalizing s g with
  | zero => exact ⟨s, by simpa using idle, by simpa using level, fun _ => rfl⟩
  | succ k ih =>
    push_cast at room
    have refreshed : s.globalBucket.refresh (Int.tdiv 1000 r) (int32 0) = ⟨g, 0⟩ := by
      have still := refresh_periods (g := g) (n := 0) (t := 0) le_rfl positive (by omega) (second_tdiv low high).1
        le_rfl (by omega)
      have zero : int32 0 = 0 := by decide
      simpa [level, zero] using still
    obtain ⟨passed, next, bucket⟩ := idle.pass outside fast (by omega) rate low high refreshed positive (by omega)
    obtain ⟨t, last, full, run⟩ := ih next bucket (by omega) (by omega)
    refine ⟨t, ?_, ?_, fun rest => ?_⟩
    · rwa [show g + ((k + 1 : Nat) : Int) = g + 1 + k by push_cast; omega]
    · rwa [show g + ((k + 1 : Nat) : Int) = g + 1 + k by push_cast; omega]
    · rw [List.replicate_succ, List.cons_append, oobRun]
      have now : Packet.now ⟨a, 0⟩ = int32 0 := rfl
      simp only [now, passed, run rest]
      rfl

theorem oobRun_beats (k : Nat) (outside : a ≠ loopback) (fast : rateIp cvar = 1000) (rate : rateAll cvar = r)
    (low : 1 ≤ r) (high : r ≤ 1000) (idle : Idle cvar a sent s) (few : sent + k ≤ 10000)
    (full : s.globalBucket = ⟨r, t⟩) (start : 0 ≤ t) (stop : t + Int.tdiv 1000 r * k < 2147483648) :
    oobRun cvar s (beats a (Int.tdiv 1000 r) t k) = (beats a (Int.tdiv 1000 r) t k).map fun p => (p, true) := by
  obtain ⟨positive, _⟩ := second_tdiv low high
  induction k generalizing s t sent with
  | zero => rfl
  | succ k ih =>
    push_cast at few stop
    rw [Int.mul_add, Int.mul_one] at stop
    have more := Int.mul_nonneg positive.le (Int.natCast_nonneg k)
    have refreshed : s.globalBucket.refresh (Int.tdiv 1000 r) (Packet.now ⟨a, t + Int.tdiv 1000 r⟩) =
        ⟨r - 1, t + Int.tdiv 1000 r⟩ := by
      have beat := refresh_periods (g := r) (n := 1) (t := t) (by decide) low (by omega) positive start (by omega)
      rw [Packet.now, int32_of_range (by dsimp only; omega) (by dsimp only; omega), full]
      simpa using beat
    obtain ⟨passed, next, bucket⟩ := idle.pass outside fast (by omega) rate low high refreshed (by omega) (by omega)
    rw [beats, oobRun, List.map_cons]
    simp only [passed]
    rw [ih next (by omega) (by simpa using bucket) (by omega) (by omega)]
    rfl

theorem beats_time (member : p ∈ beats a period t k) (positive : 0 ≤ period) :
    p.ip = a ∧ t ≤ p.time ∧ p.time ≤ t + period * k := by
  induction k generalizing t with
  | zero => simp [beats] at member
  | succ k ih =>
    have more := Int.mul_nonneg positive (Int.natCast_nonneg k)
    push_cast
    rw [Int.mul_add]
    rcases List.mem_cons.mp member with rfl | member
    · exact ⟨rfl, by dsimp only; omega, by dsimp only; omega⟩
    · obtain ⟨source, after, before⟩ := ih member
      exact ⟨source, by omega, by omega⟩

theorem beats_ordered (positive : 0 ≤ period) : Ordered (beats a period t k) := by
  induction k generalizing t with
  | zero => exact List.Pairwise.nil
  | succ k ih => exact List.pairwise_cons.mpr ⟨fun p member => (beats_time member positive).2.1, ih⟩

theorem beats_length (a : UInt32) (period t : Int) (k : Nat) : (beats a period t k).length = k := by
  induction k generalizing t with
  | zero => rfl
  | succ k ih => simp [beats, ih]

theorem paced_ordered (low : 1 ≤ r) (high : r ≤ 1000) : Ordered (paced a r) := by
  have positive := (second_tdiv low high).1.le
  refine List.pairwise_append.mpr ⟨?_, beats_ordered positive, ?_⟩
  · exact List.pairwise_of_forall_mem_list fun p left q right => by
      rw [List.eq_of_mem_replicate left, List.eq_of_mem_replicate right]
  · intro p left q right
    rw [List.eq_of_mem_replicate left]
    exact (beats_time right positive).2.1

theorem paced_source (low : 1 ≤ r) (high : r ≤ 1000) : ∀ p ∈ paced a r, p.ip = a := by
  intro p member
  rcases List.mem_append.mp member with burst | beat
  · rw [List.eq_of_mem_replicate burst]
  · exact (beats_time beat (second_tdiv low high).1.le).1

/-- All of a paced run passes. -/
theorem oobRun_paced (outside : a ≠ loopback) (low : 1 ≤ r) (high : r ≤ 1000) :
    passedIn (fun _ => true) 0 (Int.tdiv 1000 r * 1001) (oobRun (pacedCvar r) {} (paced a r)) = r + 1001 := by
  obtain ⟨positive, short⟩ := second_tdiv low high
  have fast : rateIp (pacedCvar r) = 1000 := by
    have other : lit "sv_maxOOBRateIP" ≠ lit "sv_maxOOBRate" := by decide
    simp [rateIp, pacedCvar, other, clampRate]
  have rate : rateAll (pacedCvar r) = r := by
    simp only [rateAll, pacedCvar, if_true]
    exact clampRate_self low high
  have idle : Idle (pacedCvar r) a 0 {} :=
    ⟨packed_free 256, by decide, configured_start _, by
      rw [bucketOf_free 256 a]
      decide⟩
  have bounded : Int.tdiv 1000 r ≤ 1000 := by
    have := Int.mul_le_mul_of_nonneg_right low positive.le
    omega
  obtain ⟨t, next, full, run⟩ := oobRun_burst r.toNat outside fast rate low high idle rfl le_rfl (by omega)
  rw [Int.zero_add, Int.toNat_of_nonneg (by omega)] at next full
  have all := oobRun_beats 1001 outside fast rate low high next (by omega) full le_rfl (by omega)
  have every (o : Observation) (member : o ∈ (List.replicate r.toNat ((⟨a, 0⟩ : Packet), true) ++
      (beats a (Int.tdiv 1000 r) 0 1001).map fun p => (p, true)).map fun fate => (fate.1.time, fate.2 && true)) :
      (o.2 && decide (0 ≤ o.1) && decide (o.1 ≤ 0 + Int.tdiv 1000 r * 1001)) = true := by
    obtain ⟨fate, inside, rfl⟩ := List.mem_map.mp member
    rcases List.mem_append.mp inside with burst | beat
    · rw [List.eq_of_mem_replicate burst]
      simp only [Bool.and_true, Bool.true_and, decide_eq_true_eq, Bool.and_eq_true]
      omega
    · obtain ⟨p, source, rfl⟩ := List.mem_map.mp beat
      have window := beats_time source positive.le
      simp only [Bool.and_true, Bool.true_and, decide_eq_true_eq, Bool.and_eq_true]
      omega
  rw [paced, run, all, passedIn, admissions, List.countP_eq_length.mpr every]
  simp only [List.length_map, List.length_append, List.length_replicate, beats_length]
  omega

/-- A rate that does not divide the second is exceeded. -/
theorem paced_exceeds (low : 1 ≤ r) (high : r ≤ 1000) (other : ¬ r ∣ 1000) :
    1000 * (r + 1) + r * (Int.tdiv 1000 r * 1001) < 1000 * (r + 1001) := by
  have short := (second_tdiv low high).2
  have inexact := (second_exact low).not.mpr other
  rw [← Int.mul_assoc]
  omega

theorem keepsRate_iff (low : 1 ≤ r) (high : r ≤ 1000) : KeepsRate r ↔ r ∣ 1000 := by
  constructor
  case mpr => exact keepsRate_of_dvd low high
  intro keeps
  by_contra other
  have outside : ∀ p ∈ paced 1 r, p.ip ≠ loopback := fun p member => by
    rw [paced_source low high p member]
    decide
  have bound := keeps (pacedCvar r) (if_pos rfl) (paced 1 r) (paced_ordered low high) outside 0
    (Int.tdiv 1000 r * 1001) (by have := (second_tdiv low high).1; omega)
  rw [oobRun_paced (by decide) low high] at bound
  have exceeds := paced_exceeds low high other
  omega

theorem keepsRate_iff_500 : KeepsRate 500 := (keepsRate_iff (by decide) (by decide)).mpr (by decide)

/-- A configured rate of 501 lets 1000 packets a second through. -/
theorem oobRun_501 : Ordered (paced 1 501) ∧ (∀ p ∈ paced 1 501, p.ip ≠ loopback) ∧
    pacedCvar 501 (lit "sv_maxOOBRate") = 501 ∧
    1000 * (501 + 1) + 501 * 1001 <
      1000 * (passedIn (fun _ => true) 0 1001 (oobRun (pacedCvar 501) {} (paced 1 501)) : Int) := by
  refine ⟨paced_ordered (by decide) (by decide), fun p member => ?_, if_pos rfl, ?_⟩
  · rw [paced_source (by decide) (by decide) p member]
    decide
  · have all := oobRun_paced (a := 1) (r := 501) (by decide) (by decide) (by decide)
    rw [show Int.tdiv 1000 501 * 1001 = 1001 by decide] at all
    rw [all]
    decide

end JaplusProxy.Flood
