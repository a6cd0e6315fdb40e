import JaplusProxy.Flood.RateLimitProofs
import Mathlib.Data.Finset.Card
import Mathlib.Data.List.TakeWhile

/-! The table is a finite map from addresses to buckets: the slots in use come
first and hold different addresses. A request disturbs no other address, except
for the one it evicts from a full table. -/
namespace JaplusProxy.Flood
open CInt LeakyMeter

/-- Before a slot in use stand only slots in use, of other addresses. -/
def Packed (t : List Slot) : Prop := t.Pairwise fun a b => b.used = true → a.used = true ∧ a.ipi ≠ b.ipi

/-- The bucket of an address. -/
def bucketOf (t : List Slot) (ipi : UInt32) : Option Bucket :=
  (t.find? fun s => s.used && s.ipi == ipi).map Slot.bucket

/-- The table is full of others, and the slot of `a` is the first of the oldest. -/
def Evicts (t : List Slot) (ipi a : UInt32) : Prop :=
  (∀ s ∈ t, s.used = true ∧ s.ipi ≠ ipi) ∧ ∃ before slot after, t = before ++ slot :: after ∧ slot.ipi = a ∧
    (∀ s ∈ before, slot.bucket.lastTime < s.bucket.lastTime) ∧
    ∀ s ∈ after, slot.bucket.lastTime ≤ s.bucket.lastTime

/-- A free slot protects every address. -/
theorem not_evicts_free (member : s ∈ t) (unused : s.used = false) : ¬ Evicts t ipi a := by
  intro evicts
  have used := (evicts.1 s member).1
  simp [unused] at used

theorem packed_free (n : Nat) : Packed (List.replicate n .free) :=
  List.pairwise_of_forall_mem_list fun _ _ b member used => by
    simp [List.eq_of_mem_replicate member] at used

/-! ### Lookup -/

/-- One slot in use, among slots of other addresses. -/
theorem bucketOf_middle (slot : Slot) (used : slot.used = true) (fresh : ∀ s ∈ before, s.ipi ≠ slot.ipi) :
    bucketOf (before ++ slot :: after) slot.ipi = some slot.bucket := by
  have skip : before.find? (fun s => s.used && s.ipi == slot.ipi) = none := by
    simpa using fun s member _ => fresh s member
  simp [bucketOf, List.find?_append, skip, used]

theorem bucketOf_other (other : slot.ipi ≠ a ∨ slot.used = false) :
    bucketOf (before ++ slot :: after) a = bucketOf (before ++ after) a := by
  have skip : (slot.used && slot.ipi == a) = false := by
    rcases other with other | unused
    · simp [other]
    · simp [unused]
  simp [bucketOf, List.find?_append, skip]

theorem bucketOf_absent (absent : ∀ s ∈ t, s.ipi ≠ a ∨ s.used = false) : bucketOf t a = none := by
  simp only [bucketOf, Option.map_eq_none_iff, List.find?_eq_none, Bool.and_eq_true, beq_iff_eq, not_and]
  intro s member used same
  rcases absent s member with other | unused
  · exact other same
  · simp [used] at unused

theorem bucketOf_free (n : Nat) (a : UInt32) : bucketOf (List.replicate n .free) a = none :=
  bucketOf_absent fun s member => .inr (by rw [List.eq_of_mem_replicate member]; rfl)

/-! ### Search -/

theorem bucketSearch_hit (others : ∀ s ∈ before, s.used = true ∧ s.ipi ≠ slot.ipi) (used : slot.used = true)
    (i : Nat) (victim : Option Nat) :
    bucketSearch t slot.ipi (before ++ slot :: after) i victim = .hit (i + before.length) := by
  induction before generalizing i victim with
  | nil => simp [bucketSearch, used]
  | cons s before ih =>
    rw [List.forall_mem_cons] at others
    simp only [List.cons_append, bucketSearch, others.1.1, if_true, others.1.2, if_false, List.length_cons]
    rw [ih others.2]
    congr 1
    omega

/-- A free slot ends the search. -/
theorem bucketSearch_free (others : ∀ s ∈ before, s.used = true ∧ s.ipi ≠ ipi) (unused : slot.used = false)
    (i : Nat) (victim : Option Nat) :
    bucketSearch t ipi (before ++ slot :: after) i victim = .victim (some (i + before.length)) := by
  induction before generalizing i victim with
  | nil => simp [bucketSearch, unused]
  | cons s before ih =>
    rw [List.forall_mem_cons] at others
    simp only [List.cons_append, bucketSearch, others.1.1, if_true, others.1.2, if_false, List.length_cons]
    rw [ih others.2]
    congr 2
    omega

/-- The first of the oldest slots up to an index. -/
def Oldest (seen : List Slot) (v : Nat) : Prop :=
  ∃ before slot after, seen = before ++ slot :: after ∧ before.length = v ∧
    (∀ s ∈ before, slot.bucket.lastTime < s.bucket.lastTime) ∧
    ∀ s ∈ after, slot.bucket.lastTime ≤ s.bucket.lastTime

theorem oldest_extend (oldest : Oldest seen v) (here : t = seen ++ slot :: rest) :
    Oldest (seen ++ [slot]) (if outdates t slot (some v) then seen.length else v) := by
  obtain ⟨before, old, after, rfl, rfl, newer, notOlder⟩ := oldest
  have found : (t.getD before.length .free) = old := by
    simp [here]
  simp only [outdates, found, decide_eq_true_eq]
  split
  · rename_i older
    refine ⟨before ++ old :: after, slot, [], by simp, rfl, ?_, by simp⟩
    intro s member
    rcases List.mem_append.mp member with front | back
    · exact older.trans (newer s front)
    · rcases List.mem_cons.mp back with rfl | back
      · exact older
      · exact lt_of_lt_of_le older (notOlder s back)
  · rename_i notOlderNow
    refine ⟨before, old, after ++ [slot], by simp, rfl, newer, ?_⟩
    intro s member
    rcases List.mem_append.mp member with back | last
    · exact notOlder s back
    · rw [List.mem_singleton.mp last]
      exact not_lt.mp notOlderNow

/-- A full table of others gives the first of its oldest slots. -/
theorem bucketSearch_full (rest : List Slot) (layout : t = seen ++ rest)
    (others : ∀ s ∈ rest, s.used = true ∧ s.ipi ≠ ipi) (oldest : Oldest seen v) :
    ∃ w, bucketSearch t ipi rest seen.length (some v) = .victim (some w) ∧ Oldest t w := by
  induction rest generalizing seen v with
  | nil => exact ⟨v, rfl, by simpa [layout] using oldest⟩
  | cons slot rest ih =>
    rw [List.forall_mem_cons] at others
    have next := oldest_extend oldest layout
    obtain ⟨w, search, result⟩ := ih (by simp [layout] : t = (seen ++ [slot]) ++ rest) others.2 next
    refine ⟨w, ?_, result⟩
    simp only [bucketSearch, others.1.1, if_true, others.1.2, if_false]
    rw [← search, List.length_append, List.length_singleton, apply_ite some]

/-! ### Requests -/

/-- Where a request finds its slot: its own, the first free one, or the first of
the oldest in a table full of others. -/
inductive Place (t : List Slot) (ipi : UInt32) : List Slot → Slot → List Slot → Prop where
  | own : old.used = true → old.ipi = ipi → Place t ipi before old after
  | vacant : (∀ s ∈ before, s.used = true ∧ s.ipi ≠ ipi) → (∀ s ∈ old :: after, s.used = false) →
      Place t ipi before old after
  | evicted : (∀ s ∈ t, s.used = true ∧ s.ipi ≠ ipi) →
      (∀ s ∈ before, old.bucket.lastTime < s.bucket.lastTime) →
      (∀ s ∈ after, old.bucket.lastTime ≤ s.bucket.lastTime) → Place t ipi before old after

/-- The slots around the one handed out, seen from a slot of the address itself. -/
theorem Place.around (place : Place t ipi before old after) (packed : Packed t)
    (layout : t = before ++ old :: after) :
    (∀ s ∈ before, s.used = true ∧ s.ipi ≠ ipi) ∧ ∀ s ∈ after, s.used = true → s.ipi ≠ ipi := by
  subst layout
  obtain ⟨_, tail, across⟩ := List.pairwise_append.mp packed
  have behind := (List.pairwise_cons.mp tail).1
  cases place with
  | own used mine =>
    subst mine
    exact ⟨fun s member => across s member old (by simp) used, fun s member inUse => (behind s member inUse).2.symm⟩
  | vacant others unused =>
    exact ⟨others, fun s member inUse => by simp [unused s (by simp [member])] at inUse⟩
  | evicted others => exact ⟨fun s member => others s (by simp [member]), fun s member _ => (others s (by simp [member])).2⟩

theorem Place.packed (place : Place t ipi before old after) (packed : Packed t)
    (layout : t = before ++ old :: after) (b : Bucket) : Packed (before ++ ⟨ipi, b, true⟩ :: after) := by
  obtain ⟨left, right⟩ := place.around packed layout
  subst layout
  obtain ⟨front, tail, across⟩ := List.pairwise_append.mp packed
  refine List.pairwise_append.mpr ⟨front, List.pairwise_cons.mpr ⟨?_, (List.pairwise_cons.mp tail).2⟩, ?_⟩
  · exact fun s member used => ⟨rfl, (right s member used).symm⟩
  · intro s member u inside
    rcases List.mem_cons.mp inside with rfl | inside
    · exact fun _ => left s member
    · exact across s member u (List.mem_cons_of_mem _ inside)

/-- The slot that BucketFor hands out. -/
def granted (t : List Slot) (ipi : UInt32) : Slot := ⟨ipi, (bucketOf t ipi).getD {}, true⟩

/-- The slot of the address itself. -/
theorem bucketFor_own (packed : Packed (before ++ slot :: after)) (used : slot.used = true) :
    bucketFor (before ++ slot :: after) slot.ipi =
      (before ++ granted (before ++ slot :: after) slot.ipi :: after, before.length) := by
  have place : Place (before ++ slot :: after) slot.ipi before slot after := .own used rfl
  obtain ⟨others, _⟩ := place.around packed rfl
  have same : granted (before ++ slot :: after) slot.ipi = slot := by
    rw [granted, bucketOf_middle slot used fun s inside => (others s inside).2]
    cases slot
    simp_all
  rw [bucketFor, same, bucketSearch_hit others used, Nat.zero_add]

theorem granted_absent (absent : ∀ s ∈ t, s.ipi ≠ ipi ∨ s.used = false) :
    granted t ipi = { ipi := ipi, used := true } := by
  rw [granted, bucketOf_absent absent]
  rfl

/-- The first of the oldest slots of a table full of others. -/
theorem bucketFor_full (filled : t ≠ []) (apart : ∀ s ∈ t, s.used = true ∧ s.ipi ≠ ipi) :
    ∃ before old after, t = before ++ old :: after ∧ Place t ipi before old after ∧
      bucketFor t ipi = (before ++ granted t ipi :: after, before.length) := by
  cases t with
  | nil => contradiction
  | cons first rest =>
    have start : Oldest [first] 0 := ⟨[], first, [], rfl, rfl, by simp, by simp⟩
    obtain ⟨w, search, before, old, after, shape, rfl, newer, notOlder⟩ :=
      bucketSearch_full rest rfl (fun s member => apart s (by simp [member])) start
    refine ⟨before, old, after, shape, .evicted apart newer notOlder, ?_⟩
    have walk : bucketSearch (first :: rest) ipi (first :: rest) 0 none = .victim (some before.length) := by
      simp only [bucketSearch, (apart first (by simp)).1, if_true, (apart first (by simp)).2, if_false, outdates]
      exact search
    rw [bucketFor, walk, granted_absent fun s member => .inl (apart s member).2]
    simp only [Option.getD_some]
    rw [show first :: rest = before ++ old :: after from shape, List.set_append_right _ _ le_rfl,
      Nat.sub_self, List.set_cons_zero]

/-- The first free slot cuts a packed table in two. -/
theorem first_free (packed : Packed t) (spare : ¬ ∀ s ∈ t, s.used = true) :
    ∃ before old after, t = before ++ old :: after ∧ (∀ s ∈ before, s.used = true) ∧ ∀ s ∈ old :: after, s.used = false := by
  have rest : t.dropWhile Slot.used ≠ [] := by simpa [List.dropWhile_eq_nil_iff] using spare
  obtain ⟨old, after, split⟩ := List.exists_cons_of_ne_nil rest
  have shape : t = t.takeWhile Slot.used ++ old :: after := by rw [← split, List.takeWhile_append_dropWhile]
  have unused : old.used = false := by
    have head := List.head_dropWhile_not Slot.used rest
    simpa [split] using head
  refine ⟨_, old, after, shape, fun s member => List.mem_takeWhile_imp member, fun s member => ?_⟩
  rcases List.mem_cons.mp member with rfl | behind
  · exact unused
  · rw [shape] at packed
    have order := (List.pairwise_cons.mp (List.pairwise_append.mp packed).2.1).1 s behind
    by_contra used
    simp [unused, Bool.not_eq_false _ ▸ used] at order

theorem bucketFor_vacant (packed : Packed t) (others : ∀ s ∈ t, s.ipi ≠ ipi ∨ s.used = false)
    (spare : ¬ ∀ s ∈ t, s.used = true) :
    ∃ before old after, t = before ++ old :: after ∧ Place t ipi before old after ∧
      bucketFor t ipi = (before ++ granted t ipi :: after, before.length) := by
  obtain ⟨before, old, after, rfl, front, unused⟩ := first_free packed spare
  have apart (s : Slot) (member : s ∈ before) : s.used = true ∧ s.ipi ≠ ipi :=
    ⟨front s member, (others s (by simp [member])).resolve_right (by simp [front s member])⟩
  refine ⟨before, old, after, rfl, .vacant apart unused, ?_⟩
  rw [bucketFor, bucketSearch_free apart (unused old (.head _)), granted_absent others, Nat.zero_add]
  simp only [Option.getD_some]
  rw [List.set_append_right _ _ le_rfl, Nat.sub_self, List.set_cons_zero]

theorem bucketFor_place (ipi : UInt32) (packed : Packed t) (filled : t ≠ []) :
    ∃ before old after, t = before ++ old :: after ∧ Place t ipi before old after ∧
      bucketFor t ipi = (before ++ granted t ipi :: after, before.length) := by
  by_cases known : ∃ s ∈ t, s.used = true ∧ s.ipi = ipi
  · obtain ⟨slot, member, used, rfl⟩ := known
    obtain ⟨before, after, rfl⟩ := List.append_of_mem member
    exact ⟨before, slot, after, rfl, .own used rfl, bucketFor_own packed used⟩
  · have others (s : Slot) (member : s ∈ t) : s.ipi ≠ ipi ∨ s.used = false := by
      by_contra both
      simp only [not_or, not_not, Bool.not_eq_false] at both
      exact known ⟨s, member, both.2, both.1⟩
    by_cases full : ∀ s ∈ t, s.used = true
    · exact bucketFor_full filled fun s member =>
        ⟨full s member, (others s member).resolve_right (by simp [full s member])⟩
    · exact bucketFor_vacant packed others full

/-- A request rewrites one slot, and judges the bucket of its address or a zero one. -/
theorem rateLimitFor_place (ipi : UInt32) (maxBurst period now : Int) (packed : Packed t) (filled : t ≠ []) :
    ∃ before old after, t = before ++ old :: after ∧ Place t ipi before old after ∧
      rateLimitFor t ipi maxBurst period now =
        (before ++ ⟨ipi, (oobRateLimit ((bucketOf t ipi).getD {}) maxBurst period now).1, true⟩ :: after,
          (oobRateLimit ((bucketOf t ipi).getD {}) maxBurst period now).2) := by
  obtain ⟨before, old, after, layout, place, slot⟩ := bucketFor_place ipi packed filled
  refine ⟨before, old, after, layout, place, ?_⟩
  rw [rateLimitFor, slot]
  simp [granted]

/-- What a request does, by address. -/
structure Served (t : List Slot) (ipi : UInt32) (bucket : Bucket) (t' : List Slot) : Prop where
  packed : Packed t'
  length : t'.length = t.length
  self : bucketOf t' ipi = some bucket
  other : ∀ a, a ≠ ipi → ¬ Evicts t ipi a → bucketOf t' a = bucketOf t a
  forgotten : ∀ a, a ≠ ipi → bucketOf t' a = bucketOf t a ∨ bucketOf t' a = none
  known : ∀ s ∈ t', s.used = true → s.ipi = ipi ∨ s ∈ t

theorem Served.filled (served : Served t ipi bucket t') (before : t ≠ []) : t' ≠ [] := by
  rw [← List.length_pos_iff, served.length, List.length_pos_iff]
  exact before

/-- An address that the slot was not taken from. -/
theorem bucketOf_kept (other : a ≠ ipi) (apart : old.used = true → old.ipi ≠ a ∨ old.ipi = ipi) (bucket : Bucket) :
    bucketOf (before ++ ⟨ipi, bucket, true⟩ :: after) a = bucketOf (before ++ old :: after) a := by
  rw [bucketOf_other (Or.inl (Ne.symm other)), bucketOf_other]
  cases used : old.used with
  | false => exact .inr rfl
  | true =>
    refine .inl ((apart used).elim id fun mine => ?_)
    rw [mine]
    exact Ne.symm other

/-- The address that it was taken from has no other. -/
theorem bucketOf_evicted (packed : Packed (before ++ old :: after)) (used : old.used = true) (other : old.ipi ≠ ipi)
    (bucket : Bucket) : bucketOf (before ++ ⟨ipi, bucket, true⟩ :: after) old.ipi = none := by
  obtain ⟨_, tail, across⟩ := List.pairwise_append.mp packed
  rw [bucketOf_other (Or.inl (Ne.symm other))]
  apply bucketOf_absent
  intro s member
  rcases List.mem_append.mp member with front | back
  · exact .inl (across s front old (by simp) used).2
  · cases inUse : s.used with
    | false => exact .inr rfl
    | true => exact .inl ((List.pairwise_cons.mp tail).1 s back inUse).2.symm

theorem rateLimitFor_spec (ipi : UInt32) (maxBurst period now : Int) (packed : Packed t) (filled : t ≠ []) :
    (rateLimitFor t ipi maxBurst period now).2 = (oobRateLimit ((bucketOf t ipi).getD {}) maxBurst period now).2 ∧
      Served t ipi (oobRateLimit ((bucketOf t ipi).getD {}) maxBurst period now).1
        (rateLimitFor t ipi maxBurst period now).1 := by
  obtain ⟨before, old, after, layout, place, result⟩ := rateLimitFor_place ipi maxBurst period now packed filled
  rw [result]
  generalize (oobRateLimit ((bucketOf t ipi).getD {}) maxBurst period now).1 = bucket
  obtain ⟨others, _⟩ := place.around packed layout
  refine ⟨rfl, place.packed packed layout bucket, by simp [layout],
    bucketOf_middle ⟨ipi, bucket, true⟩ rfl fun s member => (others s member).2, ?_, ?_, ?_⟩
  · intro a other spared
    rw [layout]
    apply bucketOf_kept other
    intro used
    cases place with
    | own _ mine => exact .inr mine
    | vacant _ unused => simp [unused old (by simp)] at used
    | evicted full newer notOlder =>
      exact .inl fun same => spared ⟨full, before, old, after, layout, same, newer, notOlder⟩
  · intro a other
    by_cases taken : old.used = true ∧ old.ipi = a
    · obtain ⟨used, rfl⟩ := taken
      exact .inr (bucketOf_evicted (layout ▸ packed) used other bucket)
    · rw [layout]
      exact .inl (bucketOf_kept other (fun used => .inl fun same => taken ⟨used, same⟩) bucket)
  · intro s member _
    rw [layout]
    simp only [List.mem_append, List.mem_cons] at member ⊢
    rcases member with front | rfl | back
    · exact .inr (.inl front)
    · exact .inl rfl
    · exact .inr (.inr (.inr back))

/-- More slots than addresses: one is free. -/
theorem exists_free {sources : Finset UInt32} (packed : Packed t) (few : sources.card < t.length)
    (known : ∀ s ∈ t, s.used = true → s.ipi ∈ sources) : ∃ s ∈ t, s.used = false := by
  by_contra full
  simp only [not_exists, not_and, Bool.not_eq_false] at full
  have distinct : (t.map Slot.ipi).Nodup := by
    rw [List.nodup_iff_pairwise_ne, List.pairwise_map]
    exact packed.imp_of_mem fun _ right order => (order (full _ right)).2
  have subset : (t.map Slot.ipi).toFinset ⊆ sources := by
    intro a member
    obtain ⟨s, inside, rfl⟩ := List.mem_map.mp (List.mem_toFinset.mp member)
    exact known s inside (full s inside)
  have count := Finset.card_le_card subset
  rw [List.toFinset_card_of_nodup distinct, List.length_map] at count
  omega

/-! ### One address of a table -/

/-- The slot of an address as a meter; none before the first packet. -/
def TableTracks (l : Limit) (t : List Slot) (a : UInt32) : Option Meter → Prop
  | none => bucketOf t a = none
  | some m => ∃ b, bucketOf t a = some b ∧ Reads l b m

theorem TableTracks.tracks (tracks : TableTracks l t a m) : Tracks l ((bucketOf t a).getD {}) m := by
  cases m with
  | none =>
    rw [show bucketOf t a = none from tracks]
    rfl
  | some m =>
    obtain ⟨b, found, reads⟩ := tracks
    rw [found]
    exact reads

/-- A request of the address itself is one step of its meter. -/
theorem rateLimitFor_step (l : Limit) (packed : Packed t) (filled : t ≠ []) (tracks : TableTracks l t a m)
    (later : ∀ old, m = some old → old.time ≤ time) :
    ∃ after, TableTracks l (rateLimitFor t a l.maxBurst l.period (int32 time)).1 a (some after) ∧
      after.time = time ∧
      Step l.period l.maxBurst m (!(rateLimitFor t a l.maxBurst l.period (int32 time)).2) after := by
  obtain ⟨verdict, served⟩ := rateLimitFor_spec a l.maxBurst l.period (int32 time) packed filled
  obtain ⟨after, reads, clock, step⟩ := oobRateLimit_step l tracks.tracks later
  exact ⟨after, ⟨_, served.self, reads⟩, clock, verdict ▸ step⟩

theorem rateLimitFor_keeps (packed : Packed t) (filled : t ≠ []) (tracks : TableTracks l t a m)
    (other : a ≠ ipi) (spared : ¬ Evicts t ipi a) (maxBurst period now : Int) :
    TableTracks l (rateLimitFor t ipi maxBurst period now).1 a m := by
  have served := (rateLimitFor_spec ipi maxBurst period now packed filled).2
  cases m <;> simpa only [TableTracks, served.other a other spared] using tracks

/-- A request of another address may push this one out, and does no more to it. -/
theorem rateLimitFor_other (packed : Packed t) (filled : t ≠ []) (tracks : TableTracks l t a m)
    (other : a ≠ ipi) (maxBurst period now : Int) :
    ∃ m', TableTracks l (rateLimitFor t ipi maxBurst period now).1 a m' ∧ (m' = m ∨ m' = none) := by
  rcases (rateLimitFor_spec ipi maxBurst period now packed filled).2.forgotten a other with same | gone
  · refine ⟨m, ?_, .inl rfl⟩
    cases m <;> simpa only [TableTracks, same] using tracks
  · exact ⟨none, gone, .inr rfl⟩

end JaplusProxy.Flood
