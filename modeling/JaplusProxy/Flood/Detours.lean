import JaplusProxy.CString
import JaplusProxy.Flood.RateLimit
import JaplusProxy.LeakyMeter

/-! The detours of patch.c that drop what the engine receives: connectionless packets
behind a limit for each address and one for all, rcon attempts behind a limit for each
address, and the end of downloads while these are disabled. -/
namespace JaplusProxy.Flood
open CString CInt LeakyMeter

/-- 127.0.0.1 as `ipi` reads it. -/
def loopback : UInt32 := 0x0100007F

/-! ### Reports of drops -/

/-- The drops since the last line, and its time. -/
structure DropLog where
  dropped : Int := 0
  lastMsg : Int := 0
  deriving DecidableEq

/-- One more drop; the count when a line is due. -/
def DropLog.drop (log : DropLog) (now : Int) : DropLog × Option Int :=
  let dropped := int32 (log.dropped + 1)
  if int32 (log.lastMsg + 5000) < now then (⟨0, now⟩, some dropped) else (⟨dropped, log.lastMsg⟩, none)

/-! ### Connectionless packets -/

structure Oob where
  table : List Slot := List.replicate 256 .free
  /-- `oob_global_burst` and `oob_global_last` -/
  globalBucket : Bucket := {}
  cfgIp : Int := -1
  cfgAll : Int := -1
  cfgTime : Int := 0

/-- A rate of 0 means that the cvar is absent. -/
def clampRate (v absent : Int) : Int := if 0 < v then if 1000 < v then 1000 else v else absent

def oobRefreshCfg (s : Oob) (cvar : Bytes → Int) (now : Int) : Oob :=
  if s.cfgTime ≠ 0 ∧ int32 (now - s.cfgTime) < 5000 then s
  else
    { s with
      cfgTime := now
      cfgIp := clampRate (cvar (lit "sv_maxOOBRateIP")) 1
      cfgAll := clampRate (cvar (lit "sv_maxOOBRate")) 1000 }

/-- `true` drops the packet. -/
def oobShouldDrop (s : Oob) (cvar : Bytes → Int) (ipi : UInt32) (now : Int) : Oob × Bool :=
  if ipi = loopback then (s, false)
  else
    let s := oobRefreshCfg s cvar now
    let (table, limited) := rateLimitFor s.table ipi (10 * s.cfgIp) (Int.tdiv 1000 s.cfgIp) now
    let s := { s with table := table }
    if limited then (s, true)
    else
      let (bucket, limited) := oobRateLimit s.globalBucket s.cfgAll (Int.tdiv 1000 s.cfgAll) now
      ({ s with globalBucket := bucket }, limited)

/-- What a detour does with a packet. -/
structure Detoured where
  forwarded : Bool
  /-- The line written to stderr. -/
  line : Option Bytes
  deriving DecidableEq

/-- `later` is the clock as it is read again for the report. -/
def detourConnless (s : Oob) (log : DropLog) (cvar : Bytes → Int) (ipi : UInt32) (now later : Int) :
    Oob × DropLog × Detoured :=
  let (s, drop) := oobShouldDrop s cvar ipi now
  if drop then
    let (log, due) := log.drop later
    (s, log, ⟨false, due.map fun n =>
      lit ("[japlus_proxy] OOB rate limit: dropped " ++ toString n ++ " connectionless requests\n")⟩)
  else (s, log, ⟨true, none⟩)

/-! ### Downloads -/

/-- `log` holds `oob_dl_dropped` and `oob_dl_lastMsg`. -/
def detourDoneDownload (log : DropLog) (cvar : Bytes → Int) (now : Int) : DropLog × Detoured :=
  if cvar (lit "sv_allowdownload") ≠ 0 then (log, ⟨true, none⟩)
  else
    let (log, due) := log.drop now
    (log, ⟨false, due.map fun n =>
      lit ("[japlus_proxy] donedl dropped " ++ toString n ++ " (downloads disabled)\n")⟩)

/-! ### rcon -/

structure Rcon where
  table : List Slot := List.replicate 64 .free
  log : DropLog := {}

def rconBurst : Int := 5
def rconPeriod : Int := 2000

def detourRcon (s : Rcon) (ipi : UInt32) (now : Int) : Rcon × Detoured :=
  if ipi = loopback then (s, ⟨true, none⟩)
  else
    let (table, limited) := rateLimitFor s.table ipi rconBurst rconPeriod now
    if limited then
      let (log, due) := s.log.drop now
      (⟨table, log⟩, ⟨false, due.map fun n =>
        lit ("[japlus_proxy] rcon throttled " ++ toString n ++ " attempts\n")⟩)
    else ({ s with table := table }, ⟨true, none⟩)

/-! ### Runs -/

/-- A packet at its true time in milliseconds. -/
structure Packet where
  ip : UInt32
  time : Int
  deriving DecidableEq

/-- The clock as OOB_NowMs returns it. -/
def Packet.now (p : Packet) : Int := int32 p.time

/-- Each packet with its fate. -/
def rconRun (s : Rcon) : List Packet → List (Packet × Bool)
  | [] => []
  | p :: ps =>
    let (s, detoured) := detourRcon s p.ip p.now
    (p, detoured.forwarded) :: rconRun s ps

def oobRun (cvar : Bytes → Int) (s : Oob) : List Packet → List (Packet × Bool)
  | [] => []
  | p :: ps =>
    let (s, drop) := oobShouldDrop s cvar p.ip p.now
    (p, !drop) :: oobRun cvar s ps

/-- The times do not decrease. -/
def Ordered (ps : List Packet) : Prop := ps.Pairwise fun p q => p.time ≤ q.time

/-- The packets of some sources let through in the closed window of `width` from `start` on. -/
def passedIn (source : UInt32 → Bool) (start width : Int) (run : List (Packet × Bool)) : Nat :=
  admissions start width (run.map fun fate => (fate.1.time, fate.2 && source fate.1.ip))

theorem Ordered.times {run : List (Packet × Bool)} (ordered : Ordered ps) (packets : run.map Prod.fst = ps) (source : UInt32 → Bool) :
    (run.map fun fate => (fate.1.time, fate.2 && source fate.1.ip)).Pairwise fun a b => a.1 ≤ b.1 := by
  rw [Ordered, ← packets, List.pairwise_map] at ordered
  exact List.pairwise_map.mpr ordered

end JaplusProxy.Flood
