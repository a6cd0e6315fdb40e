import JaplusProxy.Machine
import JaplusProxy.PyDict
import JaplusProxy.Manager.PidFiles

/-! The watchdog of cmd_start, from the first start_standalone_plugins on. What it asks
the system for may be answered in any way, and may raise. -/
namespace JaplusProxy.Manager.Watchdog
open PyString

/-! ### Configuration -/

/-- The settings of a plugin. -/
inductive Settings where
  | bool (b : Bool)
  /-- A dictionary, with the truth of its entry `enabled`. -/
  | dict (enabled : Option Bool)
  | other
  deriving DecidableEq

def Settings.enabled : Settings → Bool
  | .bool b => b
  | .dict enabled => enabled.getD true
  | .other => true

structure Config where
  name : Str
  plugins : PyDict Str Settings

/-- `max_crashes` -/
def maxCrashes : Nat := 5

/-! ### States -/

/-- The handle of an engine that was started without screen. -/
structure Popen where
  pid : Int
  returncode : Option Int := none
  deriving DecidableEq

/-- `code` is what the system reports; a returncode that is known stays. -/
def Popen.poll (p : Popen) (code : Option Int) : Popen := { p with returncode := p.returncode.or code }

inductive Pc where
  /-- In start_standalone_plugins, before the loop or inside it: the entries left and `procs`. -/
  | starting (first : Bool) (rest : List (Str × Settings)) (procs : PyDict Str Int)
  | head
  | check
  /-- The entries of the standalone table left to look at. -/
  | plugins (engineAlive : Bool) (rest : List (Str × Int))
  | death
  | prepare
  | launch
  | confirm
  | verify
  /-- The loop is left. -/
  | finished
  deriving DecidableEq

structure State where
  pc : Pc
  engine : Option Popen
  crashes : Nat := 0
  /-- How often the loop has called start_engine. -/
  starts : Nat := 0
  /-- The standalone table, by the pids of its processes. -/
  standalone : PyDict Str Int := .empty
  restarting : Bool := false
  dir : PidDir
  /-- The plugin processes started here that run. -/
  running : List (Str × Int) := []

/-- `engine` is what start_engine returned. -/
def Config.begin (config : Config) (engine : Option Popen) (dir : PidDir) : State :=
  { pc := .starting true config.plugins.items .empty, engine := engine, dir := dir }

/-- How the start of a plugin goes. A write_pid that raises may leave anything in the file. -/
inductive Spawned where
  | failed
  | unrecorded (pid : Int) (left : Option (Option Int))
  | recorded (pid : Int)

/-- How start_engine ends. -/
inductive Launched where
  | failed (left : Option (Option Int))
  | direct (pid : Int)
  | screen (spid : Int)

inductive Action where
  /-- `watcher.poll()` and `pm.loop_all()` -/
  | poll (raises : Bool)
  | check (alive : Bool)
  /-- A plugin of the table is found alive. -/
  | alive
  | respawn (spawned : Spawned)
  | schedule (due raises : Bool)
  | death (code : Option Int)
  | prepare (raises : Bool)
  | launch (launched : Launched)
  | confirm (alive : Bool)
  | verify (raises : Bool)
  /-- A plugin that is disabled or has no script. -/
  | skip
  | spawn (spawned : Spawned)
  /-- `standalone.update` -/
  | update
  /-- The parent of the daemon records it. -/
  | daemonized (pid : Int)
  | exits (plugin : Str) (pid : Int)
  | interrupt

namespace State
variable (s : State)

/-- A new process has no pid of one that runs. -/
def fresh (pid : Int) : Bool := 0 < pid ∧ pid ∉ s.running.map Prod.snd

/-- `Popen` and write_pid; no pid where one of them raises. -/
def popen (name plugin : Str) : Spawned → Option (State × Option Int)
  | .failed => some (s, none)
  | .unrecorded pid left =>
    if s.fresh pid then
      some ({ s with
        running := (plugin, pid) :: s.running
        dir := Function.update s.dir (pidPath name plugin) left }, none)
    else none
  | .recorded pid =>
    if s.fresh pid then
      some ({ s with running := (plugin, pid) :: s.running, dir := writePid s.dir name plugin pid }, some pid)
    else none

theorem popen_inv {s : State} (made : s.popen name plugin spawned = some (t, pid)) :
    (spawned = .failed ∧ t = s ∧ pid = none) ∨
    (∃ new left, spawned = .unrecorded new left ∧ s.fresh new ∧ pid = none ∧
      t = { s with running := (plugin, new) :: s.running, dir := Function.update s.dir (pidPath name plugin) left }) ∨
    ∃ new, spawned = .recorded new ∧ s.fresh new ∧ pid = some new ∧
      t = { s with running := (plugin, new) :: s.running, dir := writePid s.dir name plugin new } := by
  cases spawned with
  | failed =>
    cases made
    exact .inl ⟨rfl, rfl, rfl⟩
  | unrecorded new left =>
    simp only [popen] at made
    split at made
    · rename_i fresh
      cases made
      exact .inr (.inl ⟨new, left, rfl, fresh, rfl, rfl⟩)
    · cases made
  | recorded new =>
    simp only [popen] at made
    split at made
    · rename_i fresh
      cases made
      exact .inr (.inr ⟨new, rfl, fresh, rfl, rfl⟩)
    · cases made

/-! ### One pass -/

def poll (raises : Bool) : Option State :=
  match s.pc with
  | .head => some { s with pc := if raises then .head else .check }
  | _ => none

def check (alive : Bool) : Option State :=
  match s.pc with
  | .check => some { s with pc := .plugins alive s.standalone.items }
  | _ => none

def alive : Option State :=
  match s.pc with
  | .plugins engineAlive (_ :: rest) => some { s with pc := .plugins engineAlive rest }
  | _ => none

/-- os.kill finds the processes that run. -/
def respawn (name : Str) (spawned : Spawned) : Option State :=
  match s.pc with
  | .plugins engineAlive ((plugin, pid) :: rest) =>
    if pid ∈ s.running.map Prod.snd then none
    else (s.popen name plugin spawned).map fun
      | (s, none) => { s with pc := .head }
      | (s, some pid) => { s with standalone := s.standalone.set plugin pid, pc := .plugins engineAlive rest }
  | _ => none

def schedule (due raises : Bool) : Option State :=
  match s.pc with
  | .plugins false [] => some { s with pc := .death }
  | .plugins true [] =>
    if due then some { s with restarting := true, pc := if raises then .head else .finished }
    else some { s with pc := .head }
  | _ => none

def death (code : Option Int) : Option State :=
  match s.pc with
  | .death =>
    match s.engine with
    | none => some { s with crashes := 0, pc := .prepare }
    | some engine =>
      let engine := engine.poll code
      if engine.returncode.getD (-1) = -1 then some { s with engine := some engine, crashes := 0, pc := .prepare }
      else
        some { s with
          engine := some engine
          crashes := s.crashes + 1
          pc := if maxCrashes ≤ s.crashes + 1 then .finished else .prepare }
  | _ => none

/-- proxy_preflight and ensure_proxy -/
def prepare (raises : Bool) : Option State :=
  match s.pc with
  | .prepare => some { s with pc := if raises then .head else .launch }
  | _ => none

def launch (name : Str) (launched : Launched) : Option State :=
  match s.pc with
  | .launch =>
    let s := { s with starts := s.starts + 1 }
    match launched with
    | .failed left => some { s with dir := Function.update s.dir (pidPath name (str "engine")) left, pc := .head }
    | .direct pid =>
      some { s with engine := some { pid := pid }, dir := writePid s.dir name (str "engine") pid, pc := .confirm }
    | .screen spid => some { s with engine := none, dir := writePid s.dir name (str "engine") spid, pc := .confirm }
  | _ => none

/-- `ok` is the answer of proxy_preflight here, and no function: calling it raises. -/
def confirm (alive : Bool) : Option State :=
  match s.pc with
  | .confirm => some { s with pc := if s.engine.isNone ∧ alive then .head else .verify }
  | _ => none

def verify (plugins : PyDict Str Settings) (raises : Bool) : Option State :=
  match s.pc with
  | .verify => some { s with pc := if raises then .head else .starting false plugins.items .empty }
  | _ => none

/-! ### Standalone plugins -/

def skip : Option State :=
  match s.pc with
  | .starting first (_ :: rest) procs => some { s with pc := .starting first rest procs }
  | _ => none

/-- What is raised ends cmd_start before the loop, and the pass inside it. -/
def spawn (name : Str) (spawned : Spawned) : Option State :=
  match s.pc with
  | .starting first ((plugin, settings) :: rest) procs =>
    if ¬ settings.enabled then none
    else (s.popen name plugin spawned).map fun
      | (s, none) => { s with pc := if first then .finished else .head }
      | (s, some pid) => { s with pc := .starting first rest (procs.set plugin pid) }
  | _ => none

def update : Option State :=
  match s.pc with
  | .starting _ [] procs => some { s with standalone := s.standalone.update procs, pc := .head }
  | _ => none

def exits (plugin : Str) (pid : Int) : Option State :=
  if (plugin, pid) ∈ s.running then some { s with running := s.running.erase (plugin, pid) } else none

end State

def Config.step (config : Config) (s : State) : Action → Option State
  | .poll raises => s.poll raises
  | .check alive => s.check alive
  | .alive => s.alive
  | .respawn spawned => s.respawn config.name spawned
  | .schedule due raises => s.schedule due raises
  | .death code => s.death code
  | .prepare raises => s.prepare raises
  | .launch launched => s.launch config.name launched
  | .confirm alive => s.confirm alive
  | .verify raises => s.verify config.plugins raises
  | .skip => s.skip
  | .spawn spawned => s.spawn config.name spawned
  | .update => s.update
  | .daemonized pid => some { s with dir := writePid s.dir config.name (str "manager") pid }
  | .exits plugin pid => s.exits plugin pid
  | .interrupt => some { s with pc := .finished }

/-- The loop is not entered again. -/
theorem finished_stays (config : Config) {s : State} (here : s.pc = .finished) (taken : config.step s a = some t) :
    t.pc = .finished := by
  cases a with
  | daemonized pid =>
    cases taken
    exact here
  | exits plugin pid =>
    simp only [Config.step, State.exits] at taken
    split at taken
    · cases taken
      exact here
    · cases taken
  | interrupt =>
    cases taken
    rfl
  | _ =>
    simp [Config.step, State.poll, State.check, State.alive, State.respawn, State.schedule, State.death, State.prepare,
      State.launch, State.confirm, State.verify, State.skip, State.spawn, State.update, here] at taken

end JaplusProxy.Manager.Watchdog
