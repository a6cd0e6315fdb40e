import JaplusProxy.Flood.IndependenceProofs
import JaplusProxy.Flood.InertProofs
import JaplusProxy.Flood.KnockProofs

/-! An admin who keeps the pace of both limits is never held back, whatever the other
addresses send. -/
namespace JaplusProxy.Flood
open CString CInt LeakyMeter

/-! ### One bucket -/

/-- The bucket lets a packet through at each of the times, if these keep its pace. -/
structure Ready (maxBurst period : Int) (b : Bucket) (times : List Int) : Prop where
  sound : Sound maxBurst b
  rested : ∃ x, b.lastTime = int32 x ∧ 0 ≤ x ∧ ∀ t ∈ times, x ≤ t ∧ (b.burst = 0 ∨ x + period ≤ t)

theorem ready_start (maxBurst period : Int) (positive : 0 < maxBurst) (clock : ∀ t ∈ times, 0 ≤ t) :
    Ready maxBurst period {} times where
  sound := ⟨⟨le_rfl, positive.le⟩, by decide⟩
  rested := ⟨0, by decide, le_rfl, fun t member => ⟨clock t member, .inl rfl⟩⟩

theorem Ready.pass (ready : Ready maxBurst period b (t :: times)) (burst : 0 < maxBurst) (positive : 0 < period)
    (narrow : maxBurst < 2147483648) (clock : t ≤ 2147483647) (paced : ∀ u ∈ times, t + period ≤ u) :
    (oobRateLimit b maxBurst period (int32 t)).2 = false ∧
      Ready maxBurst period (oobRateLimit b maxBurst period (int32 t)).1 times := by
  obtain ⟨x, stands, low, rested⟩ := ready.rested
  rw [List.forall_mem_cons] at rested
  obtain ⟨past, drained⟩ := rested.1
  refine ⟨?_, oobRateLimit_sound ready.sound burst positive narrow t, ?_⟩
  · rcases drained with empty | waited
    · have level := refresh_burst b (by omega) positive (int32 t)
      rw [oobRateLimit_pass b ⟨positive, burst⟩ (by omega)]
    · exact oobRateLimit_paced ready.sound burst positive narrow stands waited (by omega)
  · obtain ⟨y, now, later, done, _⟩ := refresh_stamp b positive stands past (by omega)
    rw [oobRateLimit_lastTime burst positive]
    refine ⟨y, now, by omega, fun u member => ?_⟩
    have apart := paced u member
    omega

/-! ### One packet -/

/-- When the packets of an address come in, and when its attempts are handed on. -/
def arrivals (a : UInt32) (ks : List Knock) : List Int := (ks.filter (·.ip == a)).map Knock.early

def attempts (a : UInt32) (ks : List Knock) : List Int := (ks.filter (·.ip == a)).filterMap Knock.rcon

theorem arrivals_own (here : k.ip = a) : arrivals a (k :: ks) = k.early :: arrivals a ks := by
  simp [arrivals, here]

theorem arrivals_other (other : k.ip ≠ a) : arrivals a (k :: ks) = arrivals a ks := by
  simp [arrivals, other]

theorem attempts_own (here : k.ip = a) : attempts a (k :: ks) = k.rcon.toList ++ attempts a ks := by
  cases command : k.rcon <;> simp [attempts, here, command]

theorem attempts_other (other : k.ip ≠ a) : attempts a (k :: ks) = attempts a ks := by
  simp [attempts, other]

/-- The first gate before the arrivals still to come: the address finds its bucket ready. -/
structure Opens (cvar : Bytes → Int) (sources : Finset UInt32) (a : UInt32) (s : Oob) (ks : List Knock) : Prop where
  steady : ∃ meters t, Steady cvar sources s meters t ∧ ∀ k ∈ ks, t ≤ k.early
  ready : Ready 10 1000 ((bucketOf s.table a).getD {}) (arrivals a ks)

theorem Opens.receive (opens : Opens cvar sources a s (k :: ks)) (rates : rateIp cvar = 1 ∧ rateAll cvar = 1000)
    (few : sources.card ≤ 90) (member : k.ip ≠ loopback → k.ip ∈ sources) (outside : a ≠ loopback)
    (clock : k.early ≤ 2147483647) (earlier : ∀ j ∈ ks, k.early ≤ j.early)
    (paced : (arrivals a (k :: ks)).Pairwise fun t u => t + 1000 ≤ u) :
    (k.ip = a → (oobShouldDrop s cvar k.ip (int32 k.early)).2 = false) ∧
      Opens cvar sources a (oobShouldDrop s cvar k.ip (int32 k.early)).1 ks := by
  obtain ⟨⟨meters, t, steady, past⟩, ready⟩ := opens
  rw [List.forall_mem_cons] at past
  by_cases exempt : k.ip = loopback
  · have other : k.ip ≠ a := fun same => outside (same ▸ exempt)
    have still : oobShouldDrop s cvar k.ip (int32 k.early) = (s, false) := if_pos exempt
    rw [arrivals_other other] at ready
    rw [still]
    exact ⟨fun _ => rfl, ⟨meters, t, steady, past.2⟩, ready⟩
  · obtain ⟨independent, meters', next⟩ :=
      (steady.elapse few past.1).packet few rates (member exempt) exempt clock
    have steady' : ∃ meters t, Steady cvar sources (oobShouldDrop s cvar k.ip (int32 k.early)).1 meters t ∧
      ∀ j ∈ ks, t ≤ j.early := ⟨meters', k.early, next, earlier⟩
    by_cases here : k.ip = a
    · subst here
      rw [arrivals_own rfl] at ready paced
      obtain ⟨passed, later⟩ := ready.pass (by decide) (by decide) (by decide) clock (List.pairwise_cons.mp paced).1
      refine ⟨fun _ => independent.verdict.trans passed, steady', ?_⟩
      rw [independent.own]
      exact later
    · rw [arrivals_other here] at ready
      refine ⟨fun same => absurd same here, steady', ?_⟩
      rw [independent.others a (Ne.symm here)]
      exact ready

/-- The second gate before the attempts still to come. -/
structure Tries (senders : Finset UInt32) (a : UInt32) (s : Rcon) (times : List Int) : Prop where
  room : ∃ buckets, Simulates senders s.table buckets
  ready : Ready rconBurst rconPeriod ((bucketOf s.table a).getD {}) times

theorem Tries.other (tries : Tries senders a s times) (member : ipi ≠ loopback → ipi ∈ senders) (other : ipi ≠ a)
    (now : Int) : Tries senders a (detourRcon s ipi now).1 times := by
  by_cases exempt : ipi = loopback
  · rw [exempt, detourRcon_loopback]
    exact tries
  · obtain ⟨⟨buckets, simulates⟩, ready⟩ := tries
    obtain ⟨_, next⟩ := simulates.request (member exempt) rconBurst rconPeriod now
    rw [← (detourRcon_spec s exempt now).1] at next
    refine ⟨⟨_, next⟩, ?_⟩
    rw [next.bucket a, Function.update_of_ne (Ne.symm other), ← simulates.bucket a]
    exact ready

theorem Tries.own (tries : Tries senders a s (late :: times)) (member : a ∈ senders) (outside : a ≠ loopback)
    (clock : late ≤ 2147483647) (paced : ∀ u ∈ times, late + 2000 ≤ u) :
    (detourRcon s a (int32 late)).2.forwarded = true ∧ Tries senders a (detourRcon s a (int32 late)).1 times := by
  obtain ⟨⟨buckets, simulates⟩, ready⟩ := tries
  obtain ⟨verdict, next⟩ := simulates.request member rconBurst rconPeriod (int32 late)
  obtain ⟨table, forwarded⟩ := detourRcon_spec s outside (int32 late)
  rw [simulates.bucket a] at ready
  obtain ⟨passed, later⟩ := ready.pass (by decide) (by decide) (by decide) clock paced
  rw [← table] at next
  refine ⟨by rw [forwarded, verdict, passed]; rfl, ⟨_, next⟩, ?_⟩
  rw [next.bucket a, Function.update_self]
  exact later

/-! ### Runs -/

/-- Few remote addresses, fewer that send rcon commands, and an uptime below the first wrap of the clock. -/
structure Calm (ks : List Knock) : Prop where
  order : Knock.InOrder ks
  clock : ∀ k ∈ ks, 0 ≤ k.early ∧ k.early ≤ 2147483647 ∧ ∀ late ∈ k.rcon, late ≤ 2147483647
  few : (remotes ks).card ≤ 90
  fewer : (commanders ks).card ≤ 64

/-- A second between the packets of an address, and two between its attempts. -/
structure Paced (a : UInt32) (ks : List Knock) : Prop where
  arrivals : (arrivals a ks).Pairwise fun t u => t + 1000 ≤ u
  attempts : (attempts a ks).Pairwise fun t u => t + 2000 ≤ u

theorem Paced.tail (paced : Paced a (k :: ks)) : Paced a ks := by
  by_cases here : k.ip = a
  · have arrivals := paced.arrivals
    have attempts := paced.attempts
    rw [arrivals_own here] at arrivals
    rw [attempts_own here] at attempts
    exact ⟨(List.pairwise_cons.mp arrivals).2, (List.pairwise_append.mp attempts).2.1⟩
  · exact ⟨arrivals_other here ▸ paced.arrivals, attempts_other here ▸ paced.attempts⟩

/-- The packet got through, as far as it is meant to. -/
def Passage.Complete (p : Passage) : Prop := p.received = true ∧ p.tried = p.knock.rcon.isSome

section
variable {cvar : Bytes → Int} {sources senders : Finset UInt32} {a : UInt32} {d : Detours}
variable (rates : rateIp cvar = 1 ∧ rateAll cvar = 1000) (few : sources.card ≤ 90) (outside : a ≠ loopback)
include rates few outside

theorem receive_paced (opens : Opens cvar sources a d.oob (k :: ks))
    (tries : Tries senders a d.rcon (attempts a (k :: ks))) (order : Knock.InOrder (k :: ks))
    (source : k.ip ≠ loopback → k.ip ∈ sources) (sender : k.ip ≠ loopback → k.rcon.isSome → k.ip ∈ senders)
    (clock : k.early ≤ 2147483647 ∧ ∀ late ∈ k.rcon, late ≤ 2147483647) (paced : Paced a (k :: ks)) :
    (k.ip = a → (d.receive cvar k).2.Complete) ∧ Opens cvar sources a (d.receive cvar k).1.oob ks ∧
      Tries senders a (d.receive cvar k).1.rcon (attempts a ks) := by
  have spec := receive_spec cvar d k
  obtain ⟨gate, received⟩ := Prod.mk.inj spec.oob
  obtain ⟨passes, opens'⟩ := opens.receive rates few source outside clock.1
    (fun j member => ((List.pairwise_cons.mp order.between).1 j member).1) paced.arrivals
  have arrives (here : k.ip = a) : (d.receive cvar k).2.received = true := by
    have kept := received.trans (passes here)
    simpa using kept
  rw [Passage.Complete, spec.knock]
  cases handed : (d.receive cvar k).2.handed with
  | none =>
    obtain ⟨same, tried⟩ := spec.kept handed
    have silent (here : k.ip = a) : k.rcon = none := by
      simpa [Passage.handed, arrives here, spec.knock] using handed
    have still : attempts a (k :: ks) = attempts a ks := by
      by_cases here : k.ip = a
      · rw [attempts_own here, silent here]
        rfl
      · exact attempts_other here
    rw [still] at tries
    refine ⟨fun here => ⟨arrives here, ?_⟩, gate ▸ opens', same ▸ tries⟩
    rw [tried, silent here]
    rfl
  | some fate =>
    obtain ⟨received, late, command, rfl⟩ := Passage.handed_spec handed
    rw [spec.knock] at command
    obtain ⟨after, tried⟩ := spec.handed received late command
    rw [after, tried, command]
    by_cases here : k.ip = a
    · subst here
      have attempts := paced.attempts
      rw [attempts_own rfl, command] at tries attempts
      obtain ⟨passed, later⟩ := tries.own (sender outside (by simp [command])) outside (clock.2 late command)
        (List.pairwise_cons.mp attempts).1
      exact ⟨fun _ => ⟨received, passed⟩, gate ▸ opens', later⟩
    · rw [attempts_other here] at tries
      exact ⟨fun same => absurd same here, gate ▸ opens',
        tries.other (fun exempt => sender exempt (by simp [command])) here _⟩

theorem receiveAll_paced (opens : Opens cvar sources a d.oob ks) (tries : Tries senders a d.rcon (attempts a ks))
    (order : Knock.InOrder ks) (source : ∀ k ∈ ks, k.ip ≠ loopback → k.ip ∈ sources)
    (sender : ∀ k ∈ ks, k.ip ≠ loopback → k.rcon.isSome → k.ip ∈ senders)
    (clock : ∀ k ∈ ks, k.early ≤ 2147483647 ∧ ∀ late ∈ k.rcon, late ≤ 2147483647) (paced : Paced a ks) :
    ∀ p ∈ d.receiveAll cvar ks, p.knock.ip = a → p.Complete := by
  induction ks generalizing d with
  | nil => simp [Detours.receiveAll]
  | cons k ks ih =>
    rw [List.forall_mem_cons] at source sender clock
    obtain ⟨complete, opens', tries'⟩ :=
      receive_paced rates few outside opens tries order source.1 sender.1 clock.1 paced
    rw [receiveAll_cons, List.forall_mem_cons, (receive_spec cvar d k).knock]
    exact ⟨complete, ih opens' tries' order.tail source.2 sender.2 clock.2 paced.tail⟩

end

/-- The loopback address is exempt at both gates. -/
theorem receive_loopback (cvar : Bytes → Int) (d : Detours) (exempt : k.ip = loopback) :
    (d.receive cvar k).2.Complete := by
  have spec := receive_spec cvar d k
  have still : oobShouldDrop d.oob cvar k.ip k.packet.now = (d.oob, false) := if_pos exempt
  have received : (d.receive cvar k).2.received = true := by
    have kept := (Prod.mk.inj (spec.oob.trans still)).2
    simpa using kept
  rw [Passage.Complete, spec.knock]
  refine ⟨received, ?_⟩
  cases command : k.rcon with
  | none =>
    have missed : (d.receive cvar k).2.handed = none := by simp [Passage.handed, spec.knock, command]
    exact (spec.kept missed).2
  | some late =>
    rw [(spec.handed received late command).2, exempt, detourRcon_loopback]
    rfl

theorem receiveAll_loopback (cvar : Bytes → Int) (d : Detours) (ks : List Knock) :
    ∀ p ∈ d.receiveAll cvar ks, p.knock.ip = loopback → p.Complete := by
  induction ks generalizing d with
  | nil => simp [Detours.receiveAll]
  | cons k ks ih =>
    rw [receiveAll_cons, List.forall_mem_cons, (receive_spec cvar d k).knock]
    exact ⟨receive_loopback cvar d, ih _⟩

/-- Whatever the other addresses send, every packet of an address that keeps the pace reaches the engine, and
every attempt of it the password. -/
theorem paced_complete (absent : cvar (lit "sv_maxOOBRateIP") = 0 ∧ cvar (lit "sv_maxOOBRate") = 0) (calm : Calm ks)
    (paced : a ≠ loopback → Paced a ks) :
    ∀ p ∈ ({} : Detours).receiveAll cvar ks, p.knock.ip = a → p.Complete := by
  by_cases exempt : a = loopback
  · rw [exempt]
    exact receiveAll_loopback cvar {} ks
  · have early (k : Knock) (member : k ∈ ks) : 0 ≤ k.early := (calm.clock k member).1
    have opens : Opens cvar (remotes ks) a ({} : Oob) ks := by
      refine ⟨⟨_, 0, steady_start cvar _, early⟩, ?_⟩
      rw [bucketOf_free 256 a]
      refine ready_start 10 1000 (by decide) fun t member => ?_
      obtain ⟨k, inside, rfl⟩ := List.mem_map.mp member
      exact early k (List.mem_of_mem_filter inside)
    have tries : Tries (commanders ks) a ({} : Rcon) (attempts a ks) := by
      refine ⟨⟨_, simulates_free _ calm.fewer⟩, ?_⟩
      rw [bucketOf_free 64 a]
      refine ready_start rconBurst rconPeriod (by decide) fun t member => ?_
      obtain ⟨k, inside, command⟩ := List.mem_filterMap.mp member
      have own := List.mem_of_mem_filter inside
      exact (early k own).trans (calm.order.within k own t command)
    refine receiveAll_paced (default_rates absent) calm.few exempt opens tries calm.order
      (fun k member => mem_remotes member) (fun k member outside command => ?_)
      (fun k member => (calm.clock k member).2) (paced exempt)
    exact mem_remotes (List.mem_filter.mpr ⟨member, command⟩) outside

/-- Two attempts of one address, with a third of another between them. -/
def adminKnocks : List Knock :=
  [⟨1, 1000, 1000, some 1001⟩, ⟨2, 1500, 1500, some 1500⟩, ⟨1, 4000, 4000, some 4000⟩]

theorem paced_complete_pair :
    (({} : Detours).receiveAll (fun _ => 0) adminKnocks).Forall fun p => p.knock.ip = 1 → p.Complete :=
  List.forall_iff_forall_mem.mpr (paced_complete (by decide)
    ⟨⟨by decide, by decide⟩, by decide, by decide, by decide⟩ fun _ => ⟨by decide, by decide⟩)

end JaplusProxy.Flood
