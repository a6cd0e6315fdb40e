import JaplusProxy.Machine
import JaplusProxy.PyString
import Mathlib.Algebra.Order.Ring.Int

/-! The engine log between the engines that append to it and cmd_start, which empties it
once and reads it in verify_proxy. Time is in milliseconds. -/
namespace JaplusProxy.Manager.Verify
open PyString

/-! ### Reading -/

def hookedMark : Str := str "[japlus_proxy] hooked"

def skippedMark : Str := str "SKIPPED"

/-- What verify_proxy has gathered. -/
structure Found where
  hooked : List Str := []
  skipped : List Str := []
  deriving DecidableEq

namespace Found

def collect (found : Found) (line : Str) : Found :=
  if hookedMark <:+: line ∧ line ∉ found.hooked then { found with hooked := found.hooked ++ [line] }
  else if skippedMark <:+: line ∧ line ∉ found.skipped then { found with skipped := found.skipped ++ [line] }
  else found

def any (found : Found) : Bool := found.hooked ≠ [] ∨ found.skipped ≠ []

/-- What verify_proxy returns. -/
def result (found : Found) : Bool :=
  if found.hooked = [] ∧ found.skipped = [] then false
  else if found.skipped ≠ [] ∧ found.hooked = [] then false
  else true

end Found

def scan (lines : List Str) : Found := lines.foldl .collect {}

/-! ### The protocol -/

/-- A line of the log, with the start of the engine that wrote it and the time. -/
structure Entry where
  launch : Nat
  time : Int
  line : Str
  deriving DecidableEq

/-- `proxy.enabled` and `proxy.verify_timeout`, in seconds. -/
structure Proxy where
  enabled : Bool := true
  timeout : Int := 25

inductive Pc where
  | initial
  /-- After start_engine, with the log still to be emptied. -/
  | launched
  /-- Before verify_proxy. -/
  | ready
  /-- At the head of its loop, then before it reads, then asleep. -/
  | waiting (deadline : Int)
  | reading (deadline : Int)
  | sleeping (deadline wakes : Int)
  | returned (deadline : Int) (result : Bool) (found : Found)
  /-- In the watchdog loop, when start_engine or what follows has raised. -/
  | raised
  deriving DecidableEq

structure State where
  pc : Pc := .initial
  now : Int
  /-- How often this manager has started the engine. -/
  launch : Nat := 0
  log : List Entry
  /-- The log as verify_proxy has last read it. -/
  seen : List Entry := []
  /-- All that was ever written. -/
  history : List Entry

/-- A manager that finds these lines in the log. -/
def start (lines : List Str) (now : Int) : State :=
  let log := lines.map fun line => { launch := 0, time := now, line := line }
  { now := now, log := log, history := log }

inductive Action where
  | passes (time : Nat)
  /-- An engine that this manager or an earlier one has started appends a line. -/
  | append (launch : Nat) (line : Str)
  /-- start_engine; it may raise, as may what follows it in the loop. -/
  | launch (raises : Bool)
  /-- `elog.write_text("")` -/
  | truncate
  | verify
  | poll
  /-- `open` may fail. -/
  | read (readable : Bool)
  | wake

namespace State
variable (s : State)

def append (launch : Nat) (line : Str) : Option State :=
  if launch ≤ s.launch then
    let entry : Entry := { launch := launch, time := s.now, line := line }
    some { s with log := s.log ++ [entry], history := s.history ++ [entry] }
  else none

/-- Only the first start is followed by the emptying of the log. -/
def launchEngine (raises : Bool) : Option State :=
  match s.pc with
  | .initial => if raises then none else some { s with launch := s.launch + 1, pc := .launched }
  | .returned .. | .raised => some { s with launch := s.launch + 1, pc := if raises then .raised else .ready }
  | _ => none

def truncate : Option State :=
  match s.pc with
  | .launched => some { s with log := [], pc := .ready }
  | _ => none

def verify (proxy : Proxy) : Option State :=
  match s.pc with
  | .ready =>
    let deadline := s.now + 1000 * proxy.timeout
    some { s with pc := if proxy.enabled then .waiting deadline else .returned deadline true {}, seen := [] }
  | _ => none

def poll : Option State :=
  match s.pc with
  | .waiting deadline =>
    some { s with pc := if s.now < deadline then .reading deadline else .returned deadline (Found.result {}) {} }
  | _ => none

def read (readable : Bool) : Option State :=
  match s.pc with
  | .reading deadline =>
    let found := scan (if readable then s.log.map Entry.line else [])
    some { s with
      pc := if found.any then .returned deadline found.result found else .sleeping deadline (s.now + 1000)
      seen := if readable then s.log else s.seen }
  | _ => none

def wake : Option State :=
  match s.pc with
  | .sleeping deadline wakes => if wakes ≤ s.now then some { s with pc := .waiting deadline } else none
  | _ => none

end State

def step (proxy : Proxy) (s : State) : Action → Option State
  | .passes time => some { s with now := s.now + time }
  | .append launch line => s.append launch line
  | .launch raises => s.launchEngine raises
  | .truncate => s.truncate
  | .verify => s.verify proxy
  | .poll => s.poll
  | .read readable => s.read readable
  | .wake => s.wake

end JaplusProxy.Manager.Verify
