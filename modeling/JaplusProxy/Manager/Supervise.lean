import JaplusProxy.Machine
import JaplusProxy.Manager.Sessions

/-! The managers, the supervisors that start_engine forks, and the screen sessions of the
engines, in any order of their steps. All of them go by _engine_alive. -/
namespace JaplusProxy.Manager.Supervise
open PyString

/-! ### What is asked -/

/-- `screen -list`, a line for each session. -/
def screenList (sessions : List Str) : Str := sessions.flatMap fun name => '\t' :: sessionName name ++ str "\t(Detached)\n"

inductive ManagerPc where
  | idle
  /-- In start_engine: before the launch, before the fork, and before write_pid. -/
  | clearing
  | launched
  | forked (spid : Int)
  /-- In the watchdog loop. -/
  | watching
  deriving DecidableEq

inductive SupervisorPc where
  | sleeping
  /-- After _engine_alive was False. -/
  | suspecting
  | done
  deriving DecidableEq

structure Supervisor where
  name : Str
  pc : SupervisorPc := .sleeping
  crashes : Nat := 0
  deriving DecidableEq

structure State where
  /-- The processes there are, with the zombies. -/
  procs : List Int
  /-- The instances whose sessions there are. -/
  sessions : List Str := []
  /-- Sessions that screen has been asked for. -/
  pending : List Str := []
  dir : PidDir
  managers : Str → ManagerPc := fun _ => .idle
  supervisors : Int → Option Supervisor := fun _ => none

inductive Action where
  | start (name : Str)
  | launch (name : Str)
  | fork (name : Str) (spid : Int)
  | record (name : Str)
  /-- start_engine raises: cmd_start ends, or the loop goes on. -/
  | raise (name : Str) (inLoop : Bool)
  | watch (name : Str)
  /-- The manager exits, and stop_processes may remove the pid file. -/
  | quit (name : Str) (removed : Bool)
  /-- A supervisor wakes up, and looks closer where it finds no engine; `found` is pgrep. -/
  | look (spid : Int)
  | examine (spid : Int) (found : Bool)
  | appears (name : Str)
  | fails (name : Str)
  /-- The engine exits or is killed, and its session with it. -/
  | ends (name : Str)
  /-- A process of any kind, and the end of one. -/
  | spawns (pid : Int)
  | dies (pid : Int)

namespace State
variable (s : State)

def alive (pid : Int) : Bool := pid ∈ s.procs

def recorded (name : Str) : Option Int := readPid s.dir name (str "engine")

/-- _engine_alive, whoever calls it. -/
def engineAlive (name : Str) : Bool := Manager.engineAlive s.alive s.dir name (some (screenList s.sessions))

def engineExists (name : Str) (found : Bool) : Bool := Manager.engineExists name (some (screenList s.sessions)) found

def fresh (pid : Int) : Bool := 0 < pid ∧ pid ∉ s.procs

def moves (name : Str) (pc : ManagerPc) : State := { s with managers := Function.update s.managers name pc }

def supervises (spid : Int) (supervisor : Supervisor) : State :=
  { s with supervisors := Function.update s.supervisors spid (some supervisor) }

/-! ### The manager -/

/-- cmd_start, unless the engine runs already. -/
def start (name : Str) : Option State :=
  let already := if s.recorded name = some 1 then s.engineAlive name else isPidAlive s.alive (s.recorded name)
  match s.managers name with
  | .idle => if already then none else some (s.moves name .clearing)
  | _ => none

def launch (name : Str) : Option State :=
  match s.managers name with
  | .clearing => some { s.moves name .launched with pending := name :: s.pending }
  | _ => none

def fork (name : Str) (spid : Int) : Option State :=
  match s.managers name with
  | .launched =>
    if s.fresh spid then
      some { (s.moves name (.forked spid)).supervises spid { name := name } with procs := spid :: s.procs }
    else none
  | _ => none

def record (name : Str) : Option State :=
  match s.managers name with
  | .forked spid => some { s.moves name .watching with dir := writePid s.dir name (str "engine") spid }
  | _ => none

def raise (name : Str) (inLoop : Bool) : Option State :=
  match s.managers name with
  | .clearing | .launched | .forked _ => some (s.moves name (if inLoop then .watching else .idle))
  | _ => none

def watch (name : Str) : Option State :=
  match s.managers name with
  | .watching => some (if s.engineAlive name then s else s.moves name .clearing)
  | _ => none

def quit (name : Str) (removed : Bool) : State :=
  { s.moves name .idle with dir := if removed then removePid s.dir name (str "engine") else s.dir }

/-! ### The supervisor -/

def look (spid : Int) : Option State :=
  match s.supervisors spid with
  | some ⟨name, .sleeping, crashes⟩ =>
    some (if s.engineAlive name then s else s.supervises spid ⟨name, .suspecting, crashes⟩)
  | _ => none

def examine (spid : Int) (found : Bool) : Option State :=
  match s.supervisors spid with
  | some ⟨name, .suspecting, crashes⟩ =>
    if s.engineExists name found then
      let pc := if crashes + 1 < 10 then .sleeping else .done
      some { s.supervises spid ⟨name, pc, crashes + 1⟩ with pending := name :: s.pending }
    else some (s.supervises spid ⟨name, .done, crashes⟩)
  | _ => none

/-! ### Sessions and processes -/

def appears (name : Str) : Option State :=
  if name ∈ s.pending then some { s with pending := s.pending.erase name, sessions := name :: s.sessions } else none

def fails (name : Str) : Option State :=
  if name ∈ s.pending then some { s with pending := s.pending.erase name } else none

def ends (name : Str) : Option State :=
  if name ∈ s.sessions then some { s with sessions := s.sessions.erase name } else none

def spawns (pid : Int) : Option State := if s.fresh pid then some { s with procs := pid :: s.procs } else none

def dies (pid : Int) : State :=
  { s with procs := s.procs.filter (· ≠ pid), supervisors := Function.update s.supervisors pid none }

def act : Action → Option State
  | .start name => s.start name
  | .launch name => s.launch name
  | .fork name spid => s.fork name spid
  | .record name => s.record name
  | .raise name inLoop => s.raise name inLoop
  | .watch name => s.watch name
  | .quit name removed => some (s.quit name removed)
  | .look spid => s.look spid
  | .examine spid found => s.examine spid found
  | .appears name => s.appears name
  | .fails name => s.fails name
  | .ends name => s.ends name
  | .spawns pid => s.spawns pid
  | .dies pid => some (s.dies pid)

end State

/-- The instance that an action is of. -/
def Action.instance? : Action → Option Str
  | .start name | .launch name | .fork name _ | .record name | .raise name _ | .watch name | .quit name _
  | .appears name | .fails name | .ends name => some name
  | .look _ | .examine .. | .spawns _ | .dies _ => none

def step (instances : List Str) (s : State) (a : Action) : Option State :=
  if ∀ name ∈ a.instance?, name ∈ instances then s.act a else none

end JaplusProxy.Manager.Supervise
