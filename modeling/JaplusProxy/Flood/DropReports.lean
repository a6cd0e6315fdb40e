import JaplusProxy.Flood.Detours
import JaplusProxy.Machine

/-! The three detours as one system, whose packets come in any order and which all read
one clock, with a history of what became of each packet. -/
namespace JaplusProxy.Flood
open CString CInt

inductive Hook where
  | connless | donedl | rcon
  deriving DecidableEq

/-- A packet at a detour. The clock stands at `early` when OOB_ShouldDrop reads it, and at
`time` when the detour does. -/
structure Arrival where
  hook : Hook
  ip : UInt32
  cvar : Bytes → Int
  early : Int
  time : Int

structure Detours where
  oob : Oob := {}
  /-- `oob_dropped` and `oob_lastMsg` -/
  oobLog : DropLog := {}
  dlLog : DropLog := {}
  rcon : Rcon := {}

namespace Detours
variable (d : Detours)

def log : Hook → DropLog
  | .connless => d.oobLog
  | .donedl => d.dlLog
  | .rcon => d.rcon.log

def meet (a : Arrival) : Detours × Detoured :=
  match a.hook with
  | .connless =>
    let (oob, log, detoured) := detourConnless d.oob d.oobLog a.cvar a.ip (int32 a.early) (int32 a.time)
    ({ d with oob := oob, oobLog := log }, detoured)
  | .donedl =>
    let (log, detoured) := detourDoneDownload d.dlLog a.cvar (int32 a.time)
    ({ d with dlLog := log }, detoured)
  | .rcon =>
    let (rcon, detoured) := detourRcon d.rcon a.ip (int32 a.time)
    ({ d with rcon := rcon }, detoured)

/-- The count that a dropped packet gets reported with, if any. -/
def due (a : Arrival) : Option Int :=
  if (d.meet a).2.forwarded then none else ((d.log a.hook).drop (int32 a.time)).2

end Detours

/-- What became of a packet. -/
structure Fate where
  hook : Hook
  time : Int
  detoured : Detoured
  report : Option Int
  deriving DecidableEq

structure Watch where
  detours : Detours := {}
  history : List Fate := []

namespace Watch

/-- The clock does not go back. -/
def step (w : Watch) (a : Arrival) : Option Watch :=
  if a.early ≤ a.time ∧ ∀ f ∈ w.history, f.time ≤ a.early then
    some {
      detours := (w.detours.meet a).1
      history := w.history ++ [⟨a.hook, a.time, (w.detours.meet a).2, w.detours.due a⟩] }
  else none

def drops (w : Watch) (h : Hook) : List Fate := w.history.filter fun f => f.hook = h ∧ f.detoured.forwarded = false

end Watch

end JaplusProxy.Flood
