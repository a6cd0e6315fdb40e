import JaplusProxy.Flood.Detours
import JaplusProxy.Flood.InertProofs
import JaplusProxy.Flood.TableProofs

/-! Which entry a full table gives up. BucketFor compares the clock readings in the slots,
which order as the times do while the clock does not wrap between them. -/
namespace JaplusProxy.Flood
open CInt

/-! ### Tables in use -/

/-- The table after BucketFor and OOB_RateLimit for each packet. -/
def tableAfter (maxBurst period : Int) (t : List Slot) (ps : List Packet) : List Slot :=
  ps.foldl (fun t p => (rateLimitFor t p.ip maxBurst period p.now).1) t

/-- All within less than half a turn of the clock. -/
def Spanned (ps : List Packet) : Prop := ∀ p ∈ ps, ∀ q ∈ ps, q.time - p.time < 2147483648

/-- The true time that the `lastTime` of a slot stands for. -/
def lastRefresh (now : Int) (s : Slot) : Int := lastRead now s.bucket.lastTime

/-- No slot in use has the address. -/
def Absent (t : List Slot) (ipi : UInt32) : Prop := ∀ s ∈ t, s.used = true → s.ipi ≠ ipi

/-- BucketFor takes an unused slot, or without one evicts an entry that was refreshed the
longest ago. No other slot changes. -/
def EvictsStalest (now : Int) (t : List Slot) (ipi : UInt32) : Prop :=
  ∃ i old, t[i]? = some old ∧ bucketFor t ipi = (t.set i { ipi := ipi, used := true }, i) ∧
    ((∃ s ∈ t, s.used = false) → old.used = false) ∧
    ((∀ s ∈ t, s.used = true) → ∀ s ∈ t, lastRefresh now old ≤ lastRefresh now s)

/-- The refreshes of the entries since `start`, up to a period for what had not drained. -/
structure Dated (period start now : Int) (t : List Slot) : Prop where
  packed : Packed t
  filled : t ≠ []
  stamp : ∀ s ∈ t, s.used = true → ∃ x, s.bucket.lastTime = int32 x ∧ start - period < x ∧ x ≤ now

theorem Dated.later (dated : Dated period start now t) (on : now ≤ now') : Dated period start now' t where
  packed := dated.packed
  filled := dated.filled
  stamp := fun s member used => by
    obtain ⟨x, stands, low, high⟩ := dated.stamp s member used
    exact ⟨x, stands, low, high.trans on⟩

theorem Dated.clock (dated : Dated period start now t) (ipi : UInt32) :
    int32 ((bucketOf t ipi).getD {}).lastTime = ((bucketOf t ipi).getD {}).lastTime := by
  cases found : bucketOf t ipi with
  | none => rfl
  | some b =>
    obtain ⟨s, first, rfl⟩ := Option.map_eq_some_iff.mp found
    have used := List.find?_some first
    simp only [Bool.and_eq_true] at used
    obtain ⟨x, stands, _⟩ := dated.stamp s (List.mem_of_find?_eq_some first) used.1
    rw [Option.getD_some, stands, int32_idem]

theorem Dated.request (dated : Dated period start now t) (burst : 0 < maxBurst) (positive : 0 < period)
    (begun : start ≤ time) (on : now ≤ time) (ipi : UInt32) :
    Dated period start time (rateLimitFor t ipi maxBurst period (int32 time)).1 := by
  obtain ⟨_, served⟩ := rateLimitFor_spec ipi maxBurst period (int32 time) dated.packed dated.filled
  obtain ⟨before, old, after, layout, _, result⟩ :=
    rateLimitFor_place ipi maxBurst period (int32 time) dated.packed dated.filled
  refine ⟨served.packed, served.filled dated.filled, ?_⟩
  rw [result]
  intro s member used
  simp only [List.mem_append, List.mem_cons] at member
  have kept (inside : s ∈ t) := (dated.later on).stamp s inside used
  rcases member with front | rfl | back
  · exact kept (by simp [layout, front])
  · obtain ⟨y, stands, done, recent⟩ := refresh_recent _ positive (dated.clock ipi) time
    exact ⟨y, by rw [oobRateLimit_lastTime burst positive, stands], by omega, done⟩
  · exact kept (by simp [layout, back])

theorem tableAfter_dated (dated : Dated period start now t) (burst : 0 < maxBurst) (positive : 0 < period)
    (ordered : Ordered ps) (begun : ∀ p ∈ ps, start ≤ p.time ∧ now ≤ p.time ∧ p.time ≤ stop) (on : now ≤ stop) :
    Dated period start stop (tableAfter maxBurst period t ps) := by
  induction ps generalizing t now with
  | nil => exact dated.later on
  | cons p ps ih =>
    obtain ⟨first, rest⟩ := List.pairwise_cons.mp ordered
    have here := begun p (.head _)
    have next := dated.request burst positive here.1 here.2.1 p.ip
    refine ih next rest (fun q member => ?_) here.2.2
    have there := begun q (.tail _ member)
    exact ⟨there.1, first q member, there.2.2⟩

/-! ### The victim -/

/-- The slot of an absent address, and what makes it the victim. -/
theorem bucketFor_absent (packed : Packed t) (filled : t ≠ []) (absent : Absent t ipi) :
    ∃ i old, t[i]? = some old ∧ bucketFor t ipi = (t.set i { ipi := ipi, used := true }, i) ∧
      (old.used = false ∨ (∀ s ∈ t, s.used = true) ∧ ∀ s ∈ t, old.bucket.lastTime ≤ s.bucket.lastTime) := by
  have blank : granted t ipi = { ipi := ipi, used := true } := by
    have none : bucketOf t ipi = none := bucketOf_absent fun s member => by
      cases used : s.used with
      | false => exact .inr rfl
      | true => exact .inl (absent s member used)
    rw [granted, none]
    rfl
  obtain ⟨before, old, after, layout, place, result⟩ := bucketFor_place ipi packed filled
  subst layout
  refine ⟨before.length, old, by simp, ?_, ?_⟩
  · rw [result, blank, List.set_append_right _ _ le_rfl, Nat.sub_self, List.set_cons_zero]
  · cases place with
    | own used mine => exact absurd mine (absent old (by simp) used)
    | vacant _ unused => exact .inl (unused old (.head _))
    | evicted others newer notOlder =>
      refine .inr ⟨fun s member => (others s member).1, fun s member => ?_⟩
      simp only [List.mem_append, List.mem_cons] at member
      rcases member with front | rfl | back
      · exact (newer s front).le
      · exact le_rfl
      · exact notOlder s back

/-- The clock has not wrapped between the last refreshes of any two entries. -/
def OneEpoch (now : Int) (t : List Slot) : Prop :=
  ∀ s ∈ t, ∀ u ∈ t, epoch (lastRefresh now s) = epoch (lastRefresh now u)

/-- In a full table the least reading is the oldest refresh exactly without a wrap. -/
theorem least_oldest_iff (dated : Dated period start now t) (narrow : period ≤ 2147483648)
    (spanned : now - start < 2147483648) (full : ∀ s ∈ t, s.used = true) (member : old ∈ t)
    (least : ∀ s ∈ t, old.bucket.lastTime ≤ s.bucket.lastTime) :
    (∀ s ∈ t, lastRefresh now old ≤ lastRefresh now s) ↔ OneEpoch now t := by
  have stamp (s : Slot) (inside : s ∈ t) : s.bucket.lastTime = int32 (lastRefresh now s) ∧
      start - period < lastRefresh now s ∧ lastRefresh now s ≤ now := by
    obtain ⟨x, stands, low, high⟩ := dated.stamp s inside (full s inside)
    have same : lastRefresh now s = x := by
      rw [lastRefresh, stands]
      exact lastRead_int32 high (by omega)
    rw [same]
    exact ⟨stands, low, high⟩
  have own := stamp old member
  constructor
  · intro oldest
    -- an entry refreshed after the wrap would read less
    have same (s : Slot) (inside : s ∈ t) : epoch (lastRefresh now s) = epoch (lastRefresh now old) := by
      have other := stamp s inside
      have order := oldest s inside
      by_contra apart
      have wrapped : epoch (lastRefresh now old) < epoch (lastRefresh now s) := by
        unfold epoch at apart ⊢
        omega
      have reads := int32_lt_of_epoch wrapped (by omega)
      rw [← other.1, ← own.1] at reads
      exact absurd (least s inside) (not_le.mpr reads)
    exact fun s left u right => (same s left).trans (same u right).symm
  · intro together s inside
    by_contra newer
    have reads := (int32_lt_iff (together s inside old member)).mpr (not_le.mp newer)
    rw [← (stamp s inside).1, ← own.1] at reads
    exact absurd (least s inside) (not_le.mpr reads)

/-- In every table in use, the entry given up for a new address is the stalest exactly when
a slot is unused or the clock has not wrapped between the refreshes in the table. -/
theorem bucketFor_stalest_iff (n : Nat) (ps : List Packet) (p : Packet) (some : 0 < n) (burst : 0 < maxBurst)
    (positive : 0 < period) (narrow : period < 2147483648) (ordered : Ordered (ps ++ [p]))
    (spanned : Spanned (ps ++ [p])) (absent : Absent (tableAfter maxBurst period (List.replicate n .free) ps) p.ip) :
    EvictsStalest p.time (tableAfter maxBurst period (List.replicate n .free) ps) p.ip ↔
      (∃ s ∈ tableAfter maxBurst period (List.replicate n .free) ps, s.used = false) ∨
        OneEpoch p.time (tableAfter maxBurst period (List.replicate n .free) ps) := by
  obtain ⟨start, begun, near⟩ : ∃ start, (∀ q ∈ ps, start ≤ q.time ∧ start ≤ q.time ∧ q.time ≤ p.time) ∧
      start ≤ p.time ∧ p.time - start < 2147483648 := by
    obtain ⟨rest, _, last⟩ := List.pairwise_append.mp ordered
    cases ps with
    | nil => exact ⟨p.time, by simp, le_rfl, by omega⟩
    | cons first ps =>
      refine ⟨first.time, fun q member => ?_, last first (.head _) p (by simp), spanned first (by simp) p (by simp)⟩
      have earlier : first.time ≤ q.time := by
        rcases List.mem_cons.mp member with rfl | later
        · exact le_rfl
        · exact (List.pairwise_cons.mp rest).1 q later
      exact ⟨earlier, earlier, last q member p (by simp)⟩
  have fresh : Dated period start start (List.replicate n .free) := {
    packed := packed_free n
    filled := by simpa using some.ne'
    stamp := fun s member used => by simp [List.eq_of_mem_replicate member] at used }
  have dated := tableAfter_dated fresh burst positive (List.pairwise_append.mp ordered).1 begun near.1
  generalize tableAfter maxBurst period (List.replicate n .free) ps = t at absent dated ⊢
  obtain ⟨i, old, place, result, victim⟩ := bucketFor_absent dated.packed dated.filled absent
  have member : old ∈ t := List.mem_of_getElem? place
  rcases victim with unused | ⟨full, least⟩
  · refine ⟨fun _ => .inl ⟨old, member, unused⟩, fun _ => ⟨i, old, place, result, fun _ => unused, fun full => ?_⟩⟩
    exact absurd (full old member) (by simp [unused])
  · have oldest := least_oldest_iff dated narrow.le near.2 full member least
    have taken : ¬ ∃ s ∈ t, s.used = false := fun ⟨s, inside, unused⟩ => by simp [full s inside] at unused
    constructor
    · rintro ⟨j, other, place', result', _, stalest⟩
      have same : j = i := (congrArg Prod.snd (result'.symm.trans result))
      subst same
      cases place.symm.trans place'
      exact .inr (oldest.mp (stalest full))
    · intro condition
      have together := condition.resolve_left taken
      exact ⟨i, old, place, result, fun unused => absurd unused taken, fun _ => oldest.mpr together⟩

theorem bucketFor_stalest_pair :
    EvictsStalest 9000 (tableAfter 5 2000 (List.replicate 2 .free) [⟨1, 5000⟩, ⟨2, 6000⟩, ⟨1, 8000⟩]) 3 := by
  have near : OneEpoch 9000 (tableAfter 5 2000 (List.replicate 2 .free) [⟨1, 5000⟩, ⟨2, 6000⟩, ⟨1, 8000⟩]) := by
    unfold OneEpoch
    decide
  exact (bucketFor_stalest_iff 2 [⟨1, 5000⟩, ⟨2, 6000⟩, ⟨1, 8000⟩] ⟨3, 9000⟩ (by decide) (by decide) (by decide)
    (by decide) (by unfold Ordered; decide) (by unfold Spanned; decide) (by unfold Absent; decide)).mpr (.inr near)

/-- Sixty-three addresses just before the clock wraps, and one just after. -/
def straddling : List Packet :=
  (List.range 63).map (fun i => ⟨UInt32.ofNat (i + 2), 2147483548⟩) ++ [⟨65, 2147483748⟩]

/-- The table that they leave. -/
def straddled : List Slot :=
  (List.range 63).map (fun i => ⟨UInt32.ofNat (i + 2), ⟨1, 2147483548⟩, true⟩) ++ [⟨65, ⟨1, -2147483548⟩, true⟩]

theorem tableAfter_straddling : tableAfter rconBurst rconPeriod (List.replicate 64 .free) straddling = straddled := by
  decide +kernel

/-- The rcon table gives up the newest entry. -/
theorem bucketFor_newest : Ordered (straddling ++ [⟨66, 2147483848⟩]) ∧ Spanned (straddling ++ [⟨66, 2147483848⟩]) ∧
    Absent (tableAfter rconBurst rconPeriod (List.replicate 64 .free) straddling) 66 ∧
    ¬ EvictsStalest 2147483848 (tableAfter rconBurst rconPeriod (List.replicate 64 .free) straddling) 66 := by
  rw [tableAfter_straddling]
  refine ⟨by unfold Ordered; decide +kernel, by unfold Spanned; decide +kernel, by unfold Absent; decide +kernel, ?_⟩
  rintro ⟨i, old, place, result, -, stalest⟩
  have last : i = 63 := (congrArg Prod.snd result).symm.trans (by decide +kernel)
  have newest : straddled[63]? = some ⟨65, ⟨1, -2147483548⟩, true⟩ := by decide +kernel
  rw [last, newest] at place
  cases place
  have first : (⟨2, ⟨1, 2147483548⟩, true⟩ : Slot) ∈ straddled := by decide +kernel
  exact absurd (stalest (by decide +kernel) _ first) (by decide)

end JaplusProxy.Flood
