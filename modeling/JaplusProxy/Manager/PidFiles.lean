import JaplusProxy.PyString
import Mathlib.Logic.Function.Basic

/-! The pid files of japm.py, a file for each process of an instance, and the two
commands that go through them. -/
namespace JaplusProxy.Manager
open PyString

/-- PID_DIR by file name, with what `int` makes of the text. -/
abbrev PidDir := Str → Option (Option Int)

/-- The name that pid_path gives. -/
def pidPath (name label : Str) : Str := name ++ '_' :: label ++ str ".pid"

/-- `None` for a file that is missing or holds no number. -/
def readPid (dir : PidDir) (name label : Str) : Option Int := (dir (pidPath name label)).join

def writePid (dir : PidDir) (name label : Str) (pid : Int) : PidDir :=
  Function.update dir (pidPath name label) (some (some pid))

def removePid (dir : PidDir) (name label : Str) : PidDir := Function.update dir (pidPath name label) none

theorem pidPath_injective (same : pidPath name label = pidPath name other) : label = other := by
  simpa [pidPath] using same

theorem pidPath_name_injective (same : pidPath name label = pidPath other label) : name = other := by
  have ends : ∀ name, pidPath name label = name ++ ('_' :: label ++ str ".pid") := fun name => List.append_assoc ..
  rw [ends, ends] at same
  exact List.append_cancel_right same

@[simp] theorem readPid_writePid_self (dir : PidDir) (name label : Str) (pid : Int) :
    readPid (writePid dir name label pid) name label = some pid := by
  simp [readPid, writePid]

/-- Whatever is left in one file, another is read as before. -/
theorem readPid_update_other (dir : PidDir) (content : Option (Option Int)) (apart : pidPath name label ≠ file) :
    readPid (Function.update dir file content) name label = readPid dir name label := by
  rw [readPid, Function.update_of_ne apart, readPid]

/-- `alive` is `os.kill(pid, 0)`. -/
def isPidAlive (alive : Int → Bool) : Option Int → Bool
  | none => false
  | some pid => 0 < pid && alive pid

/-- `"%s_*.pid" % name`, for a name without metacharacters -/
def globMatches (name file : Str) : Bool :=
  (name ++ ['_']).isPrefixOf file && (str ".pid").isSuffixOf file && name.length + 5 ≤ file.length

/-- `pid_file.stem` -/
def stem (file : Str) : Str := file.take (file.length - 4)

def labelOf (name file : Str) : Str := replace (stem file) (name ++ ['_']) []

/-! ### Stopping -/

/-- What stop_processes does, in order. -/
inductive Event where
  | read (label : Str) (pid : Option Int)
  /-- `_engine_kill`, whose signals `System.engineKill` tells. -/
  | engineKill
  | signal (label : Str) (pid : Int)
  | stoppedEngine
  | stopped (label : Str) (pid : Int)
  | notRunning (label : Str)
  deriving DecidableEq

/-- kill_pid -/
def killPid (label : Str) : Option Int → List Event
  | none => []
  | some pid => if 0 < pid then [.signal label pid] else []

/-- One pid file: whether it is removed, and what happens. -/
def stopOne (alive : Int → Bool) (label : Str) (pid : Option Int) : Bool × List Event :=
  if label = str "engine" ∧ (pid = some 1 ∨ isPidAlive alive pid) then
    (true, [.read label pid, .engineKill] ++ (if pid ≠ some 1 then killPid label pid else []) ++ [.stoppedEngine])
  else if isPidAlive alive pid then
    (true, .read label pid :: killPid label pid ++ [.stopped label (pid.getD 0)])
  else (false, [.read label pid, .notRunning label])

structure Stop where
  dir : PidDir
  events : List Event := []

def stopFile (alive : Int → Bool) (name : Str) (s : Stop) (file : Str) : Stop :=
  let label := labelOf name file
  let (removed, events) := stopOne alive label (readPid s.dir name label)
  { dir := if removed then removePid s.dir name label else s.dir, events := s.events ++ events }

/-- `files` is PID_DIR as it is listed. -/
def stopProcesses (alive : Int → Bool) (files : List Str) (dir : PidDir) (name : Str) : Stop :=
  (files.filter (globMatches name)).foldl (stopFile alive name) { dir := dir }

/-! ### The signals of _engine_kill -/

/-- A process, with the screen session that it belongs to. -/
structure ProcEntry where
  pid : Int
  session : Option Str
  cmdline : Str

/-- The processes there are, and what pkill makes of a pattern. -/
structure System where
  procs : List ProcEntry
  /-- The extended regular expression matches somewhere in the line. -/
  regexec : Str → Str → Bool

namespace System
variable (system : System)

/-- `screen -S session -X quit` -/
def quit (session : Str) : List Int := (system.procs.filter (·.session = some session)).map (·.pid)

/-- `pkill -9 -f pattern` -/
def pkill (pattern : Str) : List Int := (system.procs.filter (system.regexec pattern ·.cmdline)).map (·.pid)

/-- Whom `_engine_kill` signals, in its order; `screen -wipe` signals nobody. The name
stands in the patterns as it is. -/
def engineKill (name : Str) : List Int :=
  system.quit (str "jap_" ++ name) ++ system.pkill (str "screen.*jap_" ++ name) ++
    system.pkill (str "\\+exec " ++ name ++ str "-server\\.cfg")

/-- Whom one event of stop_processes signals. -/
def sent (name : Str) : Event → List Int
  | .engineKill => system.engineKill name
  | .signal _ pid => [pid]
  | _ => []

def signalled (name : Str) (events : List Event) : List Int := events.flatMap (system.sent name)

end System

/-! ### Status -/

/-- The labels that cmd_status prints, and whether their processes run. -/
def cmdStatus (alive : Int → Bool) (engineAlive : Bool) (files : List Str) (dir : PidDir) (name : Str) :
    List (Str × Bool) :=
  ((files.filter (globMatches name)).mergeSort le).map fun file =>
    let label := labelOf name file
    let pid := readPid dir name label
    (label, if label = str "engine" ∧ pid = some 1 then engineAlive else isPidAlive alive pid)

end JaplusProxy.Manager
