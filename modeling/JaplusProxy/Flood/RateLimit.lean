import JaplusProxy.CInt

/-! The leaky bucket of patch.c and the table that finds one for each address.
Times are `int`s, and the arithmetic wraps. -/
namespace JaplusProxy.Flood
open CInt

structure Bucket where
  burst : Int := 0
  lastTime : Int := 0
  deriving DecidableEq

/-- The refresh: what has drained since `lastTime`. -/
def Bucket.refresh (b : Bucket) (period now : Int) : Bucket :=
  let interval := int32 (now - b.lastTime)
  let expired := interval.tdiv period
  let expiredRemainder := interval.tmod period
  if b.burst < expired ∨ interval < 0 then ⟨0, now⟩
  else ⟨int32 (b.burst - expired), int32 (now - expiredRemainder)⟩

/-- `OOB_RateLimit`; `true` is over the limit. -/
def oobRateLimit (b : Bucket) (maxBurst period now : Int) : Bucket × Bool :=
  if period ≤ 0 ∨ maxBurst ≤ 0 then (b, false)
  else
    let b := b.refresh period now
    if b.burst < maxBurst then ({ b with burst := int32 (b.burst + 1) }, false) else (b, true)

/-! ### The table -/

/-- `oob_bucket_t` -/
structure Slot where
  ipi : UInt32 := 0
  bucket : Bucket := {}
  used : Bool := false
  deriving DecidableEq

/-- As the tables start. -/
def Slot.free : Slot := {}

@[simp] theorem Slot.free_used : Slot.free.used = false := rfl

/-- Where the search ends: at the slot of the address, or with a victim. -/
inductive Found where
  | hit (i : Nat)
  | victim (v : Option Nat)
  deriving DecidableEq

/-- `victim < 0 || t[i].lastTime < t[victim].lastTime` -/
def outdates (t : List Slot) (slot : Slot) : Option Nat → Bool
  | none => true
  | some v => slot.bucket.lastTime < (t.getD v .free).bucket.lastTime

/-- The slots left, the index of the first of them, and the victim so far. -/
def bucketSearch (t : List Slot) (ipi : UInt32) : List Slot → Nat → Option Nat → Found
  | [], _, victim => .victim victim
  | slot :: rest, i, victim =>
    if slot.used then
      if slot.ipi = ipi then .hit i
      else bucketSearch t ipi rest (i + 1) (if outdates t slot victim then some i else victim)
    else .victim (some i)

/-- `BucketFor`: the table and the index of the slot returned. -/
def bucketFor (t : List Slot) (ipi : UInt32) : List Slot × Nat :=
  match bucketSearch t ipi t 0 none with
  | .hit i => (t, i)
  | .victim v => (t.set (v.getD 0) { ipi := ipi, used := true }, v.getD 0)

/-- OOB_RateLimit on the slot of an address. -/
def rateLimitFor (t : List Slot) (ipi : UInt32) (maxBurst period now : Int) : List Slot × Bool :=
  let (t, i) := bucketFor t ipi
  match t[i]? with
  | none => (t, false)
  | some slot =>
    let (bucket, limited) := oobRateLimit slot.bucket maxBurst period now
    (t.set i { slot with bucket := bucket }, limited)

end JaplusProxy.Flood
