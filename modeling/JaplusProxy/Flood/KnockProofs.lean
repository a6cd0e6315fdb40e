import JaplusProxy.Flood.ConfigProofs
import JaplusProxy.Flood.GlobalRateProofs
import JaplusProxy.Flood.Knocks
import JaplusProxy.Flood.RconProofs
import JaplusProxy.Flood.RefinementProofs

/-! Attempts at the password behind both detours. Each limit holds on the packets that it
meets, so what one of them misses the other still bounds. -/
namespace JaplusProxy.Flood
open CString CInt LeakyMeter

/-! ### One packet -/

/-- The first detour judges every packet, the second those that are handed on. -/
structure Received (cvar : Bytes → Int) (d : Detours) (k : Knock) (after : Detours) (passage : Passage) : Prop where
  knock : passage.knock = k
  oob : (after.oob, !passage.received) = oobShouldDrop d.oob cvar k.ip k.packet.now
  handed : passage.received = true → ∀ late, k.rcon = some late →
    after.rcon = (detourRcon d.rcon k.ip (int32 late)).1 ∧
      passage.tried = (detourRcon d.rcon k.ip (int32 late)).2.forwarded
  kept : passage.handed = none → after.rcon = d.rcon ∧ passage.tried = false

theorem detourConnless_spec (s : Oob) (log : DropLog) (cvar : Bytes → Int) (ipi : UInt32) (now later : Int) :
    ((detourConnless s log cvar ipi now later).1, !(detourConnless s log cvar ipi now later).2.2.forwarded) =
      oobShouldDrop s cvar ipi now := by
  rw [detourConnless]
  cases dropped : (oobShouldDrop s cvar ipi now).2 <;> simp [dropped, Prod.ext_iff]

theorem receive_spec (cvar : Bytes → Int) (d : Detours) (k : Knock) :
    Received cvar d k (d.receive cvar k).1 (d.receive cvar k).2 := by
  have first := detourConnless_spec d.oob d.oobLog cvar k.ip (int32 k.early) (int32 k.report)
  simp only [Detours.receive, Detours.meet]
  generalize detourConnless d.oob d.oobLog cvar k.ip (int32 k.early) (int32 k.report) = result at first ⊢
  obtain ⟨oob, log, forwarded, line⟩ := result
  dsimp only at first ⊢
  cases forwarded with
  | false =>
    refine ⟨rfl, first, ?_, fun _ => ⟨rfl, rfl⟩⟩
    intro received
    cases received
  | true =>
    cases command : k.rcon with
    | none =>
      refine ⟨rfl, first, ?_, fun _ => ⟨rfl, rfl⟩⟩
      intro _ late handed
      cases command.symm.trans handed
    | some late =>
      refine ⟨rfl, first, ?_, ?_⟩
      · intro _ other handed
        cases command.symm.trans handed
        exact ⟨rfl, rfl⟩
      · intro missed
        simp [Passage.handed, command] at missed

theorem Passage.handed_spec {p : Passage} (handed : p.handed = some fate) :
    p.received = true ∧ ∃ late, p.knock.rcon = some late ∧ (⟨p.knock.ip, late⟩, p.tried) = fate := by
  rw [Passage.handed] at handed
  split at handed
  · rename_i received
    exact ⟨received, Option.map_eq_some_iff.mp handed⟩
  · cases handed

theorem receiveAll_cons (cvar : Bytes → Int) (d : Detours) (k : Knock) (ks : List Knock) :
    d.receiveAll cvar (k :: ks) = (d.receive cvar k).2 :: (d.receive cvar k).1.receiveAll cvar ks := rfl

/-! ### Runs -/

/-- The first detour runs as if it were alone. -/
theorem receiveAll_oob (cvar : Bytes → Int) (d : Detours) (ks : List Knock) :
    (d.receiveAll cvar ks).map (fun p => (p.knock.packet, p.received)) = oobRun cvar d.oob (ks.map Knock.packet) := by
  induction ks generalizing d with
  | nil => rfl
  | cons k ks ih =>
    have spec := receive_spec cvar d k
    have judged : oobShouldDrop d.oob cvar k.packet.ip k.packet.now = _ := spec.oob.symm
    rw [receiveAll_cons, List.map_cons, List.map_cons, oobRun, judged, ih, spec.knock]
    simp

/-- The second runs on what the first lets through. -/
theorem receiveAll_rcon (cvar : Bytes → Int) (d : Detours) (ks : List Knock) :
    (d.receiveAll cvar ks).filterMap Passage.handed =
      rconRun d.rcon (((d.receiveAll cvar ks).filterMap Passage.handed).map Prod.fst) := by
  induction ks generalizing d with
  | nil => rfl
  | cons k ks ih =>
    have spec := receive_spec cvar d k
    rw [receiveAll_cons]
    cases handed : (d.receive cvar k).2.handed with
    | none =>
      rw [List.filterMap_cons_none handed, ← (spec.kept handed).1]
      exact ih _
    | some fate =>
      rw [List.filterMap_cons_some handed, List.map_cons, rconRun]
      obtain ⟨received, late, command, rfl⟩ := Passage.handed_spec handed
      rw [spec.knock] at command ⊢
      obtain ⟨after, tried⟩ := spec.handed received late command
      have now : Packet.now ⟨k.ip, late⟩ = int32 late := rfl
      dsimp only
      rw [now, ← after, ← tried]
      exact congrArg _ (ih _)

theorem receiveAll_knocks (cvar : Bytes → Int) (d : Detours) (ks : List Knock) :
    (d.receiveAll cvar ks).map Passage.knock = ks := by
  induction ks generalizing d with
  | nil => rfl
  | cons k ks ih => rw [receiveAll_cons, List.map_cons, (receive_spec cvar d k).knock, ih]

/-- Nothing gets past the second detour that did not get past the first. -/
theorem receiveAll_tried (cvar : Bytes → Int) (d : Detours) (ks : List Knock) :
    ∀ p ∈ d.receiveAll cvar ks, p.tried = true → p.received = true := by
  induction ks generalizing d with
  | nil => simp [Detours.receiveAll]
  | cons k ks ih =>
    rw [receiveAll_cons, List.forall_mem_cons]
    refine ⟨fun tried => ?_, ih _⟩
    by_contra lost
    have missed : (d.receive cvar k).2.handed = none := by simp [Passage.handed, lost]
    exact absurd (((receive_spec cvar d k).kept missed).2.symm.trans tried) (by decide)

/-- No more attempts than packets that got past the first detour. -/
theorem triedIn_le (cvar : Bytes → Int) (d : Detours) (ks : List Knock) (source : UInt32 → Bool) (start width : Int) :
    triedIn source start width (d.receiveAll cvar ks) ≤
      passedIn source start width (oobRun cvar d.oob (ks.map Knock.packet)) := by
  rw [← receiveAll_oob, passedIn, admissions, triedIn, List.countP_map, List.countP_map]
  refine List.countP_mono_left fun p member counts => ?_
  simp only [Bool.and_eq_true] at counts
  have received := receiveAll_tried cvar d ks p member counts.1.1.1
  simp only [Function.comp_apply, Knock.packet, received, Bool.true_and, Bool.and_eq_true]
  exact ⟨⟨counts.1.1.2, counts.1.2⟩, counts.2⟩

/-! ### All addresses -/

theorem rateAll_range (cvar : Bytes → Int) : 1 ≤ rateAll cvar ∧ rateAll cvar ≤ 1000 :=
  clampRate_range _ ⟨by decide, by decide⟩

theorem rateIp_range (cvar : Bytes → Int) : 1 ≤ rateIp cvar ∧ rateIp cvar ≤ 1000 :=
  clampRate_range _ ⟨by decide, by decide⟩

/-- Packets of the loopback address leave no trace in the limits. -/
theorem oobRun_remote (cvar : Bytes → Int) (s : Oob) (ps : List Packet) :
    (oobRun cvar s ps).filter (·.1.ip != loopback) = oobRun cvar s (ps.filter (·.ip != loopback)) := by
  induction ps generalizing s with
  | nil => rfl
  | cons p ps ih =>
    by_cases exempt : p.ip = loopback
    · have still : oobShouldDrop s cvar loopback p.now = (s, false) := if_pos rfl
      simp [oobRun, still, exempt, ih]
    · simp [oobRun, exempt, ih]

theorem passedIn_remote (start width : Int) (run : List (Packet × Bool)) :
    passedIn (· != loopback) start width run =
      passedIn (fun _ => true) start width (run.filter (·.1.ip != loopback)) := by
  simp only [passedIn, admissions, List.countP_map, List.countP_filter]
  congr 1
  funext fate
  simp only [Function.comp_apply, Bool.and_true]
  cases fate.2 <;> cases fate.1.ip != loopback <;> simp

/-- Behind the limit of all addresses together there are no more attempts than it lets through, wherever
they come from and whatever became of the table of the addresses. -/
theorem attempts_backstop (cvar : Bytes → Int) (ks : List Knock) (order : Knock.InOrder ks) (start : Int)
    (forward : 0 ≤ width) : triedIn (· != loopback) start width (({} : Detours).receiveAll cvar ks) ≤
      rateAll cvar + 1 + (width - 1) / Int.tdiv 1000 (rateAll cvar) := by
  obtain ⟨low, high⟩ := rateAll_range cvar
  let ps := (ks.map Knock.packet).filter (·.ip != loopback)
  have sorted : Ordered ps := order.packets.filter _
  have outside : ∀ p ∈ ps, p.ip ≠ loopback := fun p member => by simpa using (List.mem_filter.mp member).2
  have chain := oobRun_chain low high rfl (configured_start cvar) (m := none) rfl (by simp) sorted outside start width
  have bound := chain.window (second_tdiv low high).1 (by omega) forward
    (sorted.times (oobRun_packets cvar {} ps) fun _ => true)
  have fewer := triedIn_le cvar {} ks (· != loopback) start width
  rw [passedIn_remote, oobRun_remote] at fewer
  exact (Int.ofNat_le.mpr fewer).trans bound

/-- Two addresses at the same instant. -/
def twoKnocks : List Knock := [⟨1, 1000, 1000, some 1000⟩, ⟨2, 1000, 1000, some 1000⟩]

theorem twoKnocks_inOrder : Knock.InOrder twoKnocks := ⟨by decide, by decide⟩

theorem attempts_backstop_two : triedIn (· != loopback) 1000 0 (({} : Detours).receiveAll (fun _ => 0) twoKnocks) ≤
    rateAll (fun _ => 0) + 1 + (0 - 1) / Int.tdiv 1000 (rateAll fun _ => 0) :=
  attempts_backstop _ _ twoKnocks_inOrder 1000 le_rfl

/-! ### One address -/

/-- The remote addresses of some packets. -/
def remotes (ks : List Knock) : Finset UInt32 := (ks.map Knock.ip).toFinset.erase loopback

/-- Those of them that send rcon commands. -/
def commanders (ks : List Knock) : Finset UInt32 := remotes (ks.filter (·.rcon.isSome))

theorem mem_remotes (member : k ∈ ks) (outside : k.ip ≠ loopback) : k.ip ∈ remotes ks :=
  Finset.mem_erase.mpr ⟨outside, List.mem_toFinset.mpr (List.mem_map_of_mem member)⟩

/-- The limit of connectionless packets for each address. -/
def addressLimit (cvar : Bytes → Int) : Limit where
  maxBurst := 10 * rateIp cvar
  period := Int.tdiv 1000 (rateIp cvar)
  burstPositive := by
    have range := rateIp_range cvar
    omega
  periodPositive := (second_tdiv (rateIp_range cvar).1 (rateIp_range cvar).2).1
  small := by
    have second := (second_tdiv (rateIp_range cvar).1 (rateIp_range cvar).2).2
    rw [Int.mul_assoc]
    omega

/-- A table with a slot for everyone, and the meter of one address in it. -/
structure Seated (l : Limit) (sources : Finset UInt32) (t : List Slot) (a : UInt32) (m : Option Meter) : Prop where
  room : ∃ buckets, Simulates sources t buckets
  tracks : TableTracks l t a m

theorem Simulates.filled (simulates : Simulates sources t buckets) (member : a ∈ sources) : t ≠ [] := by
  rw [← List.length_pos_iff]
  exact lt_of_lt_of_le (Finset.card_pos.mpr ⟨a, member⟩) simulates.room

theorem Seated.own (seated : Seated l sources t a m) (member : a ∈ sources)
    (later : ∀ old, m = some old → old.time ≤ u) :
    ∃ after, Seated l sources (rateLimitFor t a l.maxBurst l.period (int32 u)).1 a (some after) ∧ after.time = u ∧
      Step l.period l.maxBurst m (!(rateLimitFor t a l.maxBurst l.period (int32 u)).2) after := by
  obtain ⟨buckets, simulates⟩ := seated.room
  obtain ⟨after, tracks, clock, step⟩ :=
    rateLimitFor_step l simulates.packed (simulates.filled member) seated.tracks later
  exact ⟨after, ⟨⟨_, (simulates.request member _ _ _).2⟩, tracks⟩, clock, step⟩

theorem Seated.other (seated : Seated l sources t a m) (member : ipi ∈ sources) (other : a ≠ ipi) (now : Int) :
    Seated l sources (rateLimitFor t ipi l.maxBurst l.period now).1 a m := by
  obtain ⟨buckets, simulates⟩ := seated.room
  exact ⟨⟨_, (simulates.request member _ _ _).2⟩, rateLimitFor_keeps simulates.packed (simulates.filled member)
    seated.tracks other (simulates.spares member a) _ _ _⟩

/-- With a slot for everyone, the run as the meter of one address sees it. -/
theorem oobRun_address (configured : Configured cvar s) (seated : Seated (addressLimit cvar) sources s.table a m)
    (members : ∀ p ∈ ps, p.ip ≠ loopback → p.ip ∈ sources) (outside : a ≠ loopback)
    (earlier : ∀ old, m = some old → ∀ p ∈ ps, old.time ≤ p.time) (ordered : Ordered ps) (start width : Int) :
    Chain (addressLimit cvar).period (addressLimit cvar).maxBurst start width m
      ((oobRun cvar s ps).map fun fate => (fate.1.time, fate.2 && fate.1.ip == a)) := by
  induction ps generalizing s m with
  | nil => exact .nil
  | cons p ps ih =>
    obtain ⟨first, rest⟩ := List.pairwise_cons.mp ordered
    rw [List.forall_mem_cons] at members
    have later : ∀ old, m = some old → ∀ q ∈ ps, old.time ≤ q.time :=
      fun old same q member => earlier old same q (.tail _ member)
    rw [oobRun, List.map_cons]
    by_cases exempt : p.ip = loopback
    · have still : oobShouldDrop s cvar p.ip p.now = (s, false) := if_pos exempt
      have other : (p.ip == a) = false := by
        rw [exempt]
        exact beq_false_of_ne (Ne.symm outside)
      rw [still]
      exact .cons (.untouched (by simp [other])) (ih configured seated members.2 later rest)
    · have gated := oobShouldDrop_spec configured exempt p.now
      have table : _ = (rateLimitFor s.table p.ip (addressLimit cvar).maxBurst (addressLimit cvar).period p.now).1 :=
        gated.table
      by_cases here : p.ip = a
      · rw [here] at table gated members ⊢
        obtain ⟨after, next, clock, step⟩ :=
          seated.own (members.1 outside) fun old same => earlier old same p (.head _)
        refine .cons (.metered clock ?_) (ih gated.configured (table ▸ next) members.2 ?_ rest)
        · cases dropped : (oobShouldDrop s cvar a p.now).2 with
          | true => simpa using step.lost (addressLimit cvar).periodPositive.le
          | false =>
            have admitted : (rateLimitFor s.table a (addressLimit cvar).maxBurst (addressLimit cvar).period
                (int32 p.time)).2 = false := by
              by_contra limited
              have lost := (gated.dropped (Bool.not_eq_false _ ▸ limited)).1
              exact absurd (lost.symm.trans dropped) (by decide)
            simpa [admitted] using step
        · intro old same q member
          rw [← Option.some.inj same, clock]
          exact first q member
      · have next := seated.other (members.1 exempt) (Ne.symm here) p.now
        exact .cons (.untouched (by simp [here])) (ih gated.configured (table ▸ next) members.2 later rest)

theorem undisturbed_of_room (simulates : Simulates sources s.table buckets)
    (members : ∀ p ∈ ps, p.ip ≠ loopback → p.ip ∈ sources) (a : UInt32) (start width : Int) :
    Undisturbed a start width s ps := by
  induction ps generalizing s buckets with
  | nil => trivial
  | cons p ps ih =>
    rw [List.forall_mem_cons] at members
    refine ⟨fun _ _ remote => simulates.spares (members.1 remote) a, ?_⟩
    by_cases exempt : p.ip = loopback
    · rw [exempt, detourRcon_loopback]
      exact ih simulates members.2
    · have table := (detourRcon_spec s exempt p.now).1
      exact ih (table ▸ (simulates.request (members.1 exempt) rconBurst rconPeriod p.now).2) members.2

/-! ### What is handed on -/

/-- The attempt that a packet makes when it gets as far. -/
def Knock.attempt (k : Knock) : Option Packet := k.rcon.map fun late => ⟨k.ip, late⟩

theorem Passage.handed_attempt {p : Passage} (handed : p.handed = some fate) : p.knock.attempt = some fate.1 := by
  obtain ⟨_, late, command, rfl⟩ := handed_spec handed
  simp [Knock.attempt, command]

theorem handed_sublist (run : List Passage) :
    ((run.filterMap Passage.handed).map Prod.fst).Sublist ((run.map Passage.knock).filterMap Knock.attempt) := by
  induction run with
  | nil => exact .slnil
  | cons p run ih =>
    rw [List.map_cons]
    cases handed : p.handed with
    | none =>
      rw [List.filterMap_cons_none handed]
      cases attempt : p.knock.attempt with
      | none => rwa [List.filterMap_cons_none attempt]
      | some _ =>
        rw [List.filterMap_cons_some attempt]
        exact .cons _ ih
    | some fate =>
      rw [List.filterMap_cons_some handed, List.filterMap_cons_some (Passage.handed_attempt handed)]
      exact ih.cons_cons _

theorem attempts_ordered (order : Knock.InOrder ks) : Ordered (ks.filterMap Knock.attempt) := by
  rw [Ordered, List.pairwise_filterMap]
  refine order.between.imp_of_mem fun {j k} _ member earlier p first q second => ?_
  obtain ⟨early, command, rfl⟩ := Option.map_eq_some_iff.mp first
  obtain ⟨late, command', rfl⟩ := Option.map_eq_some_iff.mp second
  exact (earlier.2 early command).trans (order.within k member late command')

theorem attempts_commanders (member : p ∈ ks.filterMap Knock.attempt) (outside : p.ip ≠ loopback) :
    p.ip ∈ commanders ks := by
  obtain ⟨k, inside, attempt⟩ := List.mem_filterMap.mp member
  obtain ⟨late, command, rfl⟩ := Option.map_eq_some_iff.mp attempt
  exact mem_remotes (List.mem_filter.mpr ⟨inside, by simp [command]⟩) outside

section
variable {ks : List Knock} {a : UInt32} {width : Int}
variable (cvar : Bytes → Int) (order : Knock.InOrder ks) (outside : a ≠ loopback) (start : Int) (forward : 0 ≤ width)
include order outside forward

/-- The limit of connectionless packets bounds attempts too. -/
theorem attempts_connless (few : (remotes ks).card ≤ 256) :
    triedIn (· == a) start width (({} : Detours).receiveAll cvar ks) ≤
      10 * rateIp cvar + 1 + (width - 1) / Int.tdiv 1000 (rateIp cvar) := by
  have seated : Seated (addressLimit cvar) (remotes ks) (List.replicate 256 .free) a none :=
    ⟨⟨_, simulates_free _ few⟩, bucketOf_free 256 a⟩
  have members : ∀ p ∈ ks.map Knock.packet, p.ip ≠ loopback → p.ip ∈ remotes ks := by
    rw [List.forall_mem_map]
    exact fun k member outside => mem_remotes member outside
  have chain := oobRun_address (configured_start cvar) seated members outside (by simp) order.packets start width
  have bound := chain.window (addressLimit cvar).periodPositive (addressLimit cvar).burstPositive.le forward
    (order.packets.times (oobRun_packets cvar {} _) (· == a))
  exact (Int.ofNat_le.mpr (triedIn_le cvar {} ks (· == a) start width)).trans bound

theorem attempts_rcon (few : (commanders ks).card ≤ 64) :
    passedIn (· == a) start width ((({} : Detours).receiveAll cvar ks).filterMap Passage.handed) ≤
      rconAllowance width := by
  have within := handed_sublist (({} : Detours).receiveAll cvar ks)
  rw [receiveAll_knocks] at within
  have sorted : Ordered _ := (attempts_ordered order).sublist within
  have free : Simulates (commanders ks) ({} : Rcon).table fun _ => {} := simulates_free _ few
  have undisturbed := undisturbed_of_room free
    (fun p member outside => attempts_commanders (within.subset member) outside) a start width
  have watched (ps : List Packet) : Watched a {} none ps := ⟨packed_free 64, by decide, bucketOf_free 64 a, by simp⟩
  have bound := (rconRun_chain outside (watched _) sorted undisturbed).window (by decide) (by decide) forward
    (sorted.times (rconRun_packets {} _) (· == a))
  rw [receiveAll_rcon]
  refine bound.trans ?_
  rw [rconAllowance]
  split
  · rename_i instant
    rw [instant]
    decide
  · exact le_rfl

end

/-- The attempts of one address, behind two tables. While the first has a slot for everyone, the limit of
connectionless packets bounds them, also when the second table is overrun; and while the second has one for
everyone who sends commands, its own limit does, also when the first is. -/
theorem attempts_address (cvar : Bytes → Int) (ks : List Knock) (order : Knock.InOrder ks) (outside : a ≠ loopback)
    (start : Int) (forward : 0 ≤ width) :
    ((remotes ks).card ≤ 256 → triedIn (· == a) start width (({} : Detours).receiveAll cvar ks) ≤
      10 * rateIp cvar + 1 + (width - 1) / Int.tdiv 1000 (rateIp cvar)) ∧
    ((commanders ks).card ≤ 64 →
      passedIn (· == a) start width ((({} : Detours).receiveAll cvar ks).filterMap Passage.handed) ≤
        rconAllowance width) :=
  ⟨attempts_connless cvar order outside start forward, attempts_rcon cvar order outside start forward⟩

theorem attempts_address_two :
    triedIn (· == 1) 0 3000 (({} : Detours).receiveAll (fun _ => 0) twoKnocks) ≤
      10 * rateIp (fun _ => 0) + 1 + (3000 - 1) / Int.tdiv 1000 (rateIp fun _ => 0) ∧
    passedIn (· == 1) 0 3000 ((({} : Detours).receiveAll (fun _ => 0) twoKnocks).filterMap Passage.handed) ≤
      rconAllowance 3000 :=
  have bounds := attempts_address (fun _ => 0) twoKnocks twoKnocks_inOrder (by decide : (1 : UInt32) ≠ loopback) 0
    (by decide : (0 : Int) ≤ 3000)
  ⟨bounds.1 (by decide), bounds.2 (by decide)⟩

end JaplusProxy.Flood
