import JaplusProxy.Flood.GlobalRateProofs

/-! Under the default settings, with few sources, the verdicts of one address are
those of its own bucket alone. The table has a slot for everyone, and the bucket of
all sources never fills: it leaks a thousand packets a second, and what it holds is
covered by what the buckets of the addresses hold together. -/
namespace JaplusProxy.Flood
open CString CInt LeakyMeter

/-- One request a second, after a burst of ten. -/
def defaultLimit : Limit where
  maxBurst := 10
  period := 1000
  burstPositive := by decide
  periodPositive := by decide
  small := by decide

/-- The addresses of a run that have buckets. -/
def sourcesOf (ps : List Packet) : Finset UInt32 := (ps.map Packet.ip).toFinset.erase loopback

/-- A run of few sources while the clock stays positive. -/
structure Bounded (ps : List Packet) : Prop where
  ordered : Ordered ps
  clock : ∀ p ∈ ps, 0 ≤ p.time ∧ p.time ≤ 2147483647
  few : (sourcesOf ps).card ≤ 90

def timesOf (a : UInt32) (ps : List Packet) : List Int := (ps.filter (·.ip == a)).map Packet.time

def verdictsOf (a : UInt32) (run : List (Packet × Bool)) : List Bool := (run.filter (·.1.ip == a)).map Prod.snd

/-- A bucket that serves one address alone. -/
def aloneRun (b : Bucket) : List Int → List Bool
  | [] => []
  | t :: ts =>
    let (b, limited) := oobRateLimit b 10 1000 (int32 t)
    (!limited) :: aloneRun b ts

/-! ### The bucket of all sources -/

/-- What the bucket of all sources still holds at a time. -/
def shared (b : Bucket) (t : Int) : Int := max (b.burst - (t - b.lastTime)) 0

theorem refresh_shared (b : Bucket) (positive : 0 ≤ b.burst ∧ b.burst ≤ 1000) (past : 0 ≤ b.lastTime ∧ b.lastTime ≤ t)
    (clock : t ≤ 2147483647) : b.refresh 1 (int32 t) = ⟨shared b t, t⟩ := by
  have now : int32 t = t := int32_of_range (by omega) (by omega)
  have elapsed : int32 (t - b.lastTime) = t - b.lastTime := int32_of_range (by omega) (by omega)
  simp only [Bucket.refresh, now, elapsed, Int.tdiv_one, Int.tmod_one, Int.sub_zero, shared]
  split
  · rw [max_eq_right (by omega)]
  · rw [max_eq_left (by omega), int32_of_range (by omega) (by omega)]

theorem default_rates (absent : cvar (lit "sv_maxOOBRateIP") = 0 ∧ cvar (lit "sv_maxOOBRate") = 0) :
    rateIp cvar = 1 ∧ rateAll cvar = 1000 := by
  rw [rateIp, rateAll, absent.1, absent.2]
  decide

/-- The table after a packet of a source, as its meters see it. -/
structure TableSteady (sources : Finset UInt32) (table : List Slot) (meters : UInt32 → Option Meter) (t : Int) :
    Prop where
  packed : Packed table
  length : table.length = 256
  known : ∀ slot ∈ table, slot.used = true → slot.ipi ∈ sources
  tracks : ∀ a, TableTracks defaultLimit table a (meters a)
  past : ∀ a m, meters a = some m → m.time ≤ t

theorem TableSteady.filled (steady : TableSteady sources table meters t) : table ≠ [] := by
  rw [← List.length_pos_iff, steady.length]
  decide

/-- One request: its meter takes one step, and the other addresses keep their buckets. -/
theorem TableSteady.request (steady : TableSteady sources table meters u) (few : sources.card ≤ 90)
    (member : ipi ∈ sources) :
    ∃ after, after.time = u ∧
      Step 1000 10 (meters ipi) (!(rateLimitFor table ipi 10 1000 (int32 u)).2) after ∧
      TableSteady sources (rateLimitFor table ipi 10 1000 (int32 u)).1 (Function.update meters ipi (some after)) u ∧
      ∀ a, a ≠ ipi → bucketOf (rateLimitFor table ipi 10 1000 (int32 u)).1 a = bucketOf table a := by
  obtain ⟨spare, inside, unused⟩ := exists_free steady.packed (by rw [steady.length]; omega) steady.known
  have served := (rateLimitFor_spec ipi 10 1000 (int32 u) steady.packed steady.filled).2
  obtain ⟨after, tracks, time, step⟩ := rateLimitFor_step defaultLimit steady.packed steady.filled
    (steady.tracks ipi) fun old same => steady.past ipi old same
  refine ⟨after, time, step, ⟨served.packed, served.length.trans steady.length, ?_, ?_, ?_⟩,
    fun a other => served.other a other (not_evicts_free inside unused)⟩
  · intro slot present used
    rcases served.known slot present used with rfl | before
    · exact member
    · exact steady.known slot before used
  · intro a
    by_cases same : a = ipi
    · subst same
      rw [Function.update_self]
      exact tracks
    · rw [Function.update_of_ne same]
      exact rateLimitFor_keeps steady.packed steady.filled (steady.tracks a) same (not_evicts_free inside unused)
        10 1000 (int32 u)
  · intro a m reading
    by_cases same : a = ipi
    · rw [same, Function.update_self] at reading
      rw [← Option.some.inj reading, time]
    · rw [Function.update_of_ne same] at reading
      exact steady.past a m reading

/-- The state of the gate and the meters of the sources at a time. -/
structure Steady (cvar : Bytes → Int) (sources : Finset UInt32) (s : Oob) (meters : UInt32 → Option Meter)
    (t : Int) : Prop where
  table : TableSteady sources s.table meters t
  configured : Configured cvar s
  burst : 0 ≤ s.globalBucket.burst ∧ s.globalBucket.burst ≤ 1000
  clock : 0 ≤ s.globalBucket.lastTime ∧ s.globalBucket.lastTime ≤ t
  covered : Covered 1000 sources meters t (shared s.globalBucket t)

theorem shared_elapse (b : Bucket) (later : t ≤ u) : max (shared b t - (u - t)) 0 = shared b u := by
  unfold shared
  omega

theorem Steady.elapse (steady : Steady cvar sources s meters t) (few : sources.card ≤ 90) (later : t ≤ u) :
    Steady cvar sources s meters u where
  table := { steady.table with past := fun a m same => (steady.table.past a m same).trans later }
  configured := steady.configured
  burst := steady.burst
  clock := ⟨steady.clock.1, steady.clock.2.trans later⟩
  covered := shared_elapse s.globalBucket later ▸ steady.covered.elapse (by omega) later

/-- Ninety full buckets cover less than the bucket of all sources can hold. -/
theorem covered_room (table : TableSteady sources slots meters u) (few : sources.card ≤ 90)
    (covered : Covered 1000 sources meters u g) : g < 1000 := by
  have bound := covered.bound 10 (by decide) fun a _ m reading => by
    have tracks := table.tracks a
    rw [reading] at tracks
    obtain ⟨b, _, reads⟩ := tracks
    exact ⟨reads.full, table.past a m reading⟩
  omega

/-- What one packet of a source does: the verdict is that of its own bucket, and no
other bucket changes. -/
structure Independent (s : Oob) (ipi : UInt32) (now : Int) (result : Oob × Bool) : Prop where
  verdict : result.2 = (oobRateLimit ((bucketOf s.table ipi).getD {}) 10 1000 now).2
  own : bucketOf result.1.table ipi = some (oobRateLimit ((bucketOf s.table ipi).getD {}) 10 1000 now).1
  others : ∀ a, a ≠ ipi → bucketOf result.1.table a = bucketOf s.table a

theorem Steady.packet (steady : Steady cvar sources s meters u) (few : sources.card ≤ 90)
    (rates : rateIp cvar = 1 ∧ rateAll cvar = 1000) (member : ipi ∈ sources) (outside : ipi ≠ loopback)
    (clock : u ≤ 2147483647) :
    Independent s ipi (int32 u) (oobShouldDrop s cvar ipi (int32 u)) ∧
      ∃ meters', Steady cvar sources (oobShouldDrop s cvar ipi (int32 u)).1 meters' u := by
  have gated := oobShouldDrop_spec steady.configured outside (int32 u)
  have table := gated.table
  have dropped := gated.dropped
  have judged := gated.judged
  rw [rates.1] at table dropped judged
  rw [rates.2] at judged
  obtain ⟨verdict, served⟩ := rateLimitFor_spec ipi 10 1000 (int32 u) steady.table.packed steady.table.filled
  obtain ⟨after, time, step, next, others⟩ := steady.table.request few member
  have covered := Covered.step (time ▸ steady.covered) member step
  rw [time] at covered
  change _ = (rateLimitFor s.table ipi 10 1000 (int32 u)).1 at table
  cases limited : (rateLimitFor s.table ipi 10 1000 (int32 u)).2 with
  | true =>
    obtain ⟨drop, same⟩ := dropped limited
    rw [limited] at covered
    refine ⟨⟨drop.trans (limited.symm.trans verdict), table ▸ served.self, table ▸ others⟩,
      Function.update meters ipi (some after), ?_⟩
    exact ⟨table ▸ next, gated.configured, same ▸ steady.burst, same ▸ steady.clock, by simpa [same] using covered⟩
  | false =>
    rw [limited] at covered
    simp only [Bool.not_false, Bool.toNat_true, Nat.cast_one] at covered
    have room := covered_room next few covered
    have level : 0 ≤ shared s.globalBucket u := le_max_right ..
    have refreshed := refresh_shared s.globalBucket steady.burst steady.clock clock
    have passed : ((oobShouldDrop s cvar ipi (int32 u)).1.globalBucket, (oobShouldDrop s cvar ipi (int32 u)).2) =
        (⟨shared s.globalBucket u + 1, u⟩, false) := by
      apply (judged limited).trans
      change oobRateLimit s.globalBucket 1000 1 (int32 u) = _
      rw [oobRateLimit_pass _ (by decide) (by rw [refreshed]; dsimp only; omega), refreshed]
      dsimp only
      rw [int32_of_range (by omega) (by omega)]
    obtain ⟨bucket, drop⟩ := Prod.mk.inj passed
    have now : shared (oobShouldDrop s cvar ipi (int32 u)).1.globalBucket u = shared s.globalBucket u + 1 := by
      rw [bucket, shared]
      dsimp only
      omega
    refine ⟨⟨drop.trans (limited.symm.trans verdict), table ▸ served.self, table ▸ others⟩,
      Function.update meters ipi (some after), table ▸ next, gated.configured, ?_, ?_, now ▸ covered⟩
    · rw [bucket]
      dsimp only
      omega
    · rw [bucket]
      have past := steady.clock
      dsimp only
      omega

/-! ### Runs -/

/-- The verdicts of one address are those of its own bucket alone. -/
theorem oobRun_alone (rates : rateIp cvar = 1 ∧ rateAll cvar = 1000) (few : sources.card ≤ 90)
    (outside : a ≠ loopback) (steady : Steady cvar sources s meters t) (ordered : Ordered ps)
    (later : ∀ p ∈ ps, t ≤ p.time ∧ p.time ≤ 2147483647)
    (members : ∀ p ∈ ps, p.ip ≠ loopback → p.ip ∈ sources) :
    verdictsOf a (oobRun cvar s ps) = aloneRun ((bucketOf s.table a).getD {}) (timesOf a ps) := by
  induction ps generalizing s meters t with
  | nil => rfl
  | cons p ps ih =>
    obtain ⟨first, rest⟩ := List.pairwise_cons.mp ordered
    rw [List.forall_mem_cons] at later members
    have clock : ∀ q ∈ ps, p.time ≤ q.time ∧ q.time ≤ 2147483647 :=
      fun q member => ⟨first q member, (later.2 q member).2⟩
    by_cases exempt : p.ip = loopback
    · have other : ¬ p.ip = a := fun same => outside (same ▸ exempt)
      have still : oobShouldDrop s cvar p.ip p.now = (s, false) := if_pos exempt
      have next := ih (steady.elapse few later.1.1) rest clock members.2
      simpa [oobRun, still, verdictsOf, timesOf, other] using next
    · obtain ⟨independent, meters', next⟩ := (steady.elapse few later.1.1).packet few rates (members.1 exempt) exempt
        later.1.2
      have tail := ih next rest clock members.2
      by_cases here : p.ip = a
      · subst here
        rw [independent.own, Option.getD_some] at tail
        simp only [verdictsOf, timesOf] at tail
        simp only [oobRun, verdictsOf, timesOf, Packet.now, List.filter_cons, beq_self_eq_true, if_true,
          List.map_cons, aloneRun, tail, independent.verdict]
      · rw [independent.others a (Ne.symm here)] at tail
        simp only [verdictsOf, timesOf] at tail
        simpa [oobRun, verdictsOf, timesOf, Packet.now, here] using tail

theorem steady_start (cvar : Bytes → Int) (sources : Finset UInt32) : Steady cvar sources {} (fun _ => none) 0 where
  table :=
    { packed := packed_free 256
      length := List.length_replicate
      known := fun slot member used => by simp [List.eq_of_mem_replicate member] at used
      tracks := fun a => bucketOf_free 256 a
      past := by simp }
  configured := configured_start cvar
  burst := by decide
  clock := by decide
  covered := by simp [Covered, pending, shared]

/-- The loopback address is never held back. -/
theorem oobRun_exempt (cvar : Bytes → Int) (s : Oob) (ps : List Packet) :
    verdictsOf loopback (oobRun cvar s ps) = (timesOf loopback ps).map fun _ => true := by
  induction ps generalizing s with
  | nil => rfl
  | cons p ps ih =>
    simp only [verdictsOf, timesOf] at ih
    by_cases exempt : p.ip = loopback
    · have still : oobShouldDrop s cvar loopback p.now = (s, false) := if_pos rfl
      simp [oobRun, still, verdictsOf, timesOf, exempt, ih]
    · simp [oobRun, verdictsOf, timesOf, exempt, ih]

theorem oobRun_default (absent : cvar (lit "sv_maxOOBRateIP") = 0 ∧ cvar (lit "sv_maxOOBRate") = 0)
    (bounded : Bounded ps) (outside : a ≠ loopback) :
    verdictsOf a (oobRun cvar {} ps) = aloneRun {} (timesOf a ps) := by
  have members (p : Packet) (member : p ∈ ps) (other : p.ip ≠ loopback) : p.ip ∈ sourcesOf ps :=
    Finset.mem_erase.mpr ⟨other, List.mem_toFinset.mpr (List.mem_map_of_mem member)⟩
  have alone := oobRun_alone (default_rates absent) bounded.few outside (steady_start cvar (sourcesOf ps))
    bounded.ordered bounded.clock members
  rwa [bucketOf_free 256 a] at alone

/-- The verdicts of an address depend on its own packet times only, whatever the
other addresses send. -/
theorem oobRun_independent (a : UInt32) (absent : cvar (lit "sv_maxOOBRateIP") = 0 ∧ cvar (lit "sv_maxOOBRate") = 0)
    (left : Bounded ps) (right : Bounded qs) (same : timesOf a ps = timesOf a qs) :
    verdictsOf a (oobRun cvar {} ps) = verdictsOf a (oobRun cvar {} qs) := by
  by_cases exempt : a = loopback
  · subst exempt
    rw [oobRun_exempt, oobRun_exempt, same]
  · rw [oobRun_default absent left exempt, oobRun_default absent right exempt, same]

theorem oobRun_independent_pair :
    verdictsOf 1 (oobRun (fun _ => 0) {} [⟨1, 1000⟩]) =
      verdictsOf 1 (oobRun (fun _ => 0) {} [⟨2, 500⟩, ⟨1, 1000⟩, ⟨2, 1000⟩]) := by
  have left : Bounded [⟨1, 1000⟩] := ⟨by unfold Ordered; decide, by decide, by decide⟩
  have right : Bounded [⟨2, 500⟩, ⟨1, 1000⟩, ⟨2, 1000⟩] := ⟨by unfold Ordered; decide, by decide, by decide⟩
  exact oobRun_independent 1 (by decide) left right (by decide)

end JaplusProxy.Flood
