import JaplusProxy.Flood.Detours
import JaplusProxy.Flood.TableProofs

/-! The rcon throttle for one address. As long as its slot is its own, the window
bound of the meter holds whatever the other addresses send; an address that is
pushed out of the full table starts over with a fresh burst. -/
namespace JaplusProxy.Flood
open CInt LeakyMeter

/-! ### Runs -/

def rconLimit : Limit where
  maxBurst := rconBurst
  period := rconPeriod
  burstPositive := by decide
  periodPositive := by decide
  small := by decide

/-- The attempts that a window of `width` may let through. -/
def rconAllowance (width : Int) : Int :=
  if width = 0 then rconBurst else rconBurst + 1 + (width - 1) / rconPeriod

/-- No packet of the window takes the slot of the address. -/
def Undisturbed (a : UInt32) (start width : Int) : Rcon → List Packet → Prop
  | _, [] => True
  | s, p :: ps =>
    (start ≤ p.time → p.time ≤ start + width → p.ip ≠ loopback → ¬ Evicts s.table p.ip a) ∧
      Undisturbed a start width (detourRcon s p.ip p.now).1 ps

theorem detourRcon_spec (s : Rcon) (other : ipi ≠ loopback) (now : Int) :
    (detourRcon s ipi now).1.table = (rateLimitFor s.table ipi rconBurst rconPeriod now).1 ∧
      (detourRcon s ipi now).2.forwarded = !(rateLimitFor s.table ipi rconBurst rconPeriod now).2 := by
  rw [detourRcon, if_neg other]
  cases limited : (rateLimitFor s.table ipi rconBurst rconPeriod now).2 <;> simp [limited]

theorem detourRcon_loopback (s : Rcon) (now : Int) : detourRcon s loopback now = (s, ⟨true, none⟩) :=
  if_pos rfl

/-- The meter of an address between two packets. -/
structure Watched (a : UInt32) (s : Rcon) (m : Option Meter) (ps : List Packet) : Prop where
  packed : Packed s.table
  filled : s.table ≠ []
  tracks : TableTracks rconLimit s.table a m
  earlier : ∀ old, m = some old → ∀ p ∈ ps, old.time ≤ p.time

theorem Watched.own (watched : Watched a s m (p :: ps)) (here : p.ip = a) (outside : a ≠ loopback)
    (ordered : Ordered (p :: ps)) :
    ∃ after, Watched a (detourRcon s p.ip p.now).1 (some after) ps ∧ after.time = p.time ∧
      Step rconPeriod rconBurst m (detourRcon s p.ip p.now).2.forwarded after := by
  subst here
  obtain ⟨table, forwarded⟩ := detourRcon_spec s outside p.now
  have served := (rateLimitFor_spec p.ip rconBurst rconPeriod p.now watched.packed watched.filled).2
  obtain ⟨after, tracks, clock, step⟩ := rateLimitFor_step rconLimit watched.packed watched.filled watched.tracks
    (fun old same => watched.earlier old same p (by simp))
  refine ⟨after, ⟨table ▸ served.packed, table ▸ served.filled watched.filled, table ▸ tracks, ?_⟩, clock,
    forwarded ▸ step⟩
  intro old same q member
  rw [← Option.some.inj same, clock]
  exact (List.pairwise_cons.mp ordered).1 q member

/-- Another packet leaves the meter alone, or takes its slot away. -/
theorem Watched.others (watched : Watched a s m (p :: ps)) (other : p.ip ≠ a) :
    ∃ m', Watched a (detourRcon s p.ip p.now).1 m' ps ∧
      ((p.ip ≠ loopback → ¬ Evicts s.table p.ip a) → m' = m) := by
  have rest : ∀ old, m = some old → ∀ q ∈ ps, old.time ≤ q.time :=
    fun old same q member => watched.earlier old same q (by simp [member])
  by_cases exempt : p.ip = loopback
  · rw [exempt, detourRcon_loopback]
    exact ⟨m, ⟨watched.packed, watched.filled, watched.tracks, rest⟩, fun _ => rfl⟩
  · obtain ⟨table, _⟩ := detourRcon_spec s exempt p.now
    have served := (rateLimitFor_spec p.ip rconBurst rconPeriod p.now watched.packed watched.filled).2
    have packed : Packed (detourRcon s p.ip p.now).1.table := table ▸ served.packed
    have filled : (detourRcon s p.ip p.now).1.table ≠ [] := table ▸ served.filled watched.filled
    by_cases taken : Evicts s.table p.ip a
    · obtain ⟨m', tracks, origin⟩ := rateLimitFor_other watched.packed watched.filled watched.tracks (Ne.symm other)
        rconBurst rconPeriod p.now
      refine ⟨m', ⟨packed, filled, table ▸ tracks, ?_⟩, fun spared => absurd taken (spared exempt)⟩
      rcases origin with rfl | rfl
      · exact rest
      · simp
    · exact ⟨m, ⟨packed, filled, table ▸ rateLimitFor_keeps watched.packed watched.filled watched.tracks
        (Ne.symm other) taken rconBurst rconPeriod p.now, rest⟩, fun _ => rfl⟩

/-- The run as the meter of one address sees it. -/
theorem rconRun_chain (outside : a ≠ loopback) (watched : Watched a s m ps) (ordered : Ordered ps)
    (undisturbed : Undisturbed a start width s ps) :
    Chain rconPeriod rconBurst start width m
      ((rconRun s ps).map fun fate => (fate.1.time, fate.2 && fate.1.ip == a)) := by
  induction ps generalizing s m with
  | nil => exact .nil
  | cons p ps ih =>
    rw [rconRun, List.map_cons]
    have rest : Ordered ps := (List.pairwise_cons.mp ordered).2
    by_cases here : p.ip = a
    · obtain ⟨after, next, clock, step⟩ := watched.own here outside ordered
      refine .cons (.metered clock ?_) (ih next rest undisturbed.2)
      simpa [here] using step
    · obtain ⟨m', next, kept⟩ := watched.others here
      refine .cons ?_ (ih next rest undisturbed.2)
      by_cases inside : start ≤ p.time ∧ p.time ≤ start + width
      · rw [kept (undisturbed.1 inside.1 inside.2)]
        exact .untouched (by simp [here])
      · exact .outside (by dsimp only; omega)

theorem rconRun_packets (s : Rcon) (ps : List Packet) : (rconRun s ps).map Prod.fst = ps := by
  induction ps generalizing s with
  | nil => rfl
  | cons p ps ih => simp [rconRun, ih]

/-- In every run and every window in which no other address takes its slot, an
address gets its burst and one attempt for each period begun. -/
theorem rconRun_throttled (ps : List Packet) (a : UInt32) (start width : Int) (ordered : Ordered ps)
    (outside : a ≠ loopback) (forward : 0 ≤ width) (undisturbed : Undisturbed a start width {} ps) :
    passedIn (· == a) start width (rconRun {} ps) ≤ rconAllowance width := by
  have watched : Watched a {} none ps := ⟨packed_free 64, by decide, bucketOf_free 64 a, by simp⟩
  have bound := (rconRun_chain outside watched ordered undisturbed).window (by decide) (by decide) forward
    (ordered.times (rconRun_packets {} ps) (· == a))
  rw [rconAllowance]
  split
  · rename_i instant
    rw [instant] at bound ⊢
    simpa [rconBurst, rconPeriod, passedIn] using bound
  · exact bound

theorem rconRun_throttled_pair :
    passedIn (· == 1) 0 5000 (rconRun {} [⟨1, 1000⟩, ⟨2, 2000⟩]) ≤ rconAllowance 5000 :=
  rconRun_throttled [⟨1, 1000⟩, ⟨2, 2000⟩] 1 0 5000 (by unfold Ordered; decide) (by decide) (by decide)
    ⟨fun _ _ _ => not_evicts_free (by decide : Slot.free ∈ _) rfl,
      fun _ _ _ => not_evicts_free (by decide +kernel : Slot.free ∈ _) rfl, trivial⟩

/-- One address with sixty-four others between its attempts. -/
def rotation : List Packet :=
  List.replicate 5 ⟨1, 10000⟩ ++ (List.range 64).map (fun i => ⟨UInt32.ofNat (i + 2), 10000⟩) ++
    List.replicate 5 ⟨1, 10000⟩

theorem rconRun_rotation : Ordered rotation ∧ passedIn (· == 1) 10000 0 (rconRun {} rotation) = 10 ∧
    rconAllowance 0 = 5 := by
  refine ⟨?_, by decide +kernel, by decide⟩
  unfold Ordered
  decide +kernel

end JaplusProxy.Flood
