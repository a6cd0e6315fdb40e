import JaplusProxy.Flood.TableProofs

/-! The table refines a map that keeps a bucket for every address, as long as no more
addresses occur than it has slots: nobody is pushed out, so a free slot is a bucket
that nobody has used. -/
namespace JaplusProxy.Flood
open CInt

/-- An address and the time that OOB_NowMs gives it. -/
abbrev Request := UInt32 × Int

/-- The verdicts of OOB_RateLimit on the slots of a table. -/
def tableRun (maxBurst period : Int) (t : List Slot) : List Request → List Bool
  | [] => []
  | (ipi, now) :: requests =>
    let (t, limited) := rateLimitFor t ipi maxBurst period now
    limited :: tableRun maxBurst period t requests

/-- The verdicts of OOB_RateLimit on one bucket for each address. -/
def mapRun (maxBurst period : Int) (buckets : UInt32 → Bucket) : List Request → List Bool
  | [] => []
  | (ipi, now) :: requests =>
    let (bucket, limited) := oobRateLimit (buckets ipi) maxBurst period now
    limited :: mapRun maxBurst period (Function.update buckets ipi bucket) requests

/-- The table holds the buckets of addresses out of `sources`, for which it has room. -/
structure Simulates (sources : Finset UInt32) (t : List Slot) (buckets : UInt32 → Bucket) : Prop where
  packed : Packed t
  room : sources.card ≤ t.length
  known : ∀ s ∈ t, s.used = true → s.ipi ∈ sources
  bucket : ∀ a, (bucketOf t a).getD {} = buckets a

theorem simulates_free (sources : Finset UInt32) (room : sources.card ≤ n) :
    Simulates sources (List.replicate n .free) fun _ => {} where
  packed := packed_free n
  room := by rwa [List.length_replicate]
  known := fun s member used => by simp [List.eq_of_mem_replicate member] at used
  bucket := fun a => by rw [bucketOf_free]; rfl

section
variable {sources : Finset UInt32} {t : List Slot} {buckets : UInt32 → Bucket} {ipi : UInt32}
variable (simulates : Simulates sources t buckets) (member : ipi ∈ sources)
include simulates member

/-- A table full of others leaves no address over. -/
theorem Simulates.spares (a : UInt32) : ¬ Evicts t ipi a := by
  intro evicts
  have others : ∀ s ∈ t, s.used = true → s.ipi ∈ sources.erase ipi := by
    intro s inside used
    exact Finset.mem_erase.mpr ⟨(evicts.1 s inside).2, simulates.known s inside used⟩
  have fewer : (sources.erase ipi).card < t.length :=
    lt_of_lt_of_le (Finset.card_erase_lt_of_mem member) simulates.room
  obtain ⟨s, inside, unused⟩ := exists_free simulates.packed fewer others
  exact not_evicts_free inside unused evicts

/-- One request. -/
theorem Simulates.request (maxBurst period now : Int) :
    (rateLimitFor t ipi maxBurst period now).2 = (oobRateLimit (buckets ipi) maxBurst period now).2 ∧
      Simulates sources (rateLimitFor t ipi maxBurst period now).1
        (Function.update buckets ipi (oobRateLimit (buckets ipi) maxBurst period now).1) := by
  have filled : t ≠ [] := by
    rw [← List.length_pos_iff]
    exact lt_of_lt_of_le (Finset.card_pos.mpr ⟨ipi, member⟩) simulates.room
  obtain ⟨verdict, served⟩ := rateLimitFor_spec ipi maxBurst period now simulates.packed filled
  rw [simulates.bucket ipi] at verdict served
  refine ⟨verdict, served.packed, served.length ▸ simulates.room, ?_, ?_⟩
  · intro s inside used
    rcases served.known s inside used with rfl | earlier
    · exact member
    · exact simulates.known s earlier used
  · intro a
    by_cases same : a = ipi
    · rw [same, served.self, Function.update_self]
      rfl
    · rw [served.other a same (simulates.spares member a), Function.update_of_ne same]
      exact simulates.bucket a

end

theorem tableRun_simulates (simulates : Simulates sources t buckets) (maxBurst period : Int)
    (members : ∀ request ∈ requests, request.1 ∈ sources) :
    tableRun maxBurst period t requests = mapRun maxBurst period buckets requests := by
  induction requests generalizing t buckets with
  | nil => rfl
  | cons request requests ih =>
    rw [List.forall_mem_cons] at members
    obtain ⟨verdict, next⟩ := simulates.request members.1 maxBurst period request.2
    rw [tableRun, mapRun]
    dsimp only
    rw [verdict, ih next members.2]

/-- A table with a slot for everyone gives the verdicts of the map. -/
theorem tableRun_refines (n : Nat) (maxBurst period : Int) (requests : List Request)
    (few : (requests.map Prod.fst).toFinset.card ≤ n) :
    tableRun maxBurst period (List.replicate n .free) requests = mapRun maxBurst period (fun _ => {}) requests := by
  apply tableRun_simulates (simulates_free (requests.map Prod.fst).toFinset few)
  intro request member
  exact List.mem_toFinset.mpr (List.mem_map_of_mem member)

theorem tableRun_refines_pair :
    tableRun 1 1000 (List.replicate 2 .free) [(1, 5), (2, 5), (1, 5), (2, 2000)] =
      mapRun 1 1000 (fun _ => {}) [(1, 5), (2, 5), (1, 5), (2, 2000)] :=
  tableRun_refines 2 1 1000 [(1, 5), (2, 5), (1, 5), (2, 2000)] (by decide)

end JaplusProxy.Flood
