import JaplusProxy.Manager.PidFiles

/-! The end of cmd_start: its finally block has the manager run stop_processes with its own
pid among the recorded ones, and SIGTERM, left at its default, ends it on the spot. -/
namespace JaplusProxy.Manager
open PyString

/-- The signal goes to the process that runs the loop. -/
def Event.ends (self : Int) : Event → Bool
  | .signal _ pid => pid == self
  | _ => false

/-- What is left of the events of a file, and whether the process is. -/
def upToEnd (self : Int) : List Event → List Event × Bool
  | [] => ([], false)
  | e :: rest =>
    if e.ends self then ([e], true)
    else
      let (before, ended) := upToEnd self rest
      (e :: before, ended)

structure Shutdown extends Stop where
  ended : Bool := false

/-- One pid file; a pid file is removed behind the signal. -/
def shutdownFile (alive : Int → Bool) (self : Int) (name : Str) (s : Shutdown) (file : Str) : Shutdown :=
  if s.ended then s
  else
    let label := labelOf name file
    let (removed, events) := stopOne alive label (readPid s.dir name label)
    let (events, ended) := upToEnd self events
    { dir := if removed ∧ ¬ ended then removePid s.dir name label else s.dir
      events := s.events ++ events
      ended := ended }

/-- stop_processes in the process `self`. -/
def shutdown (alive : Int → Bool) (self : Int) (files : List Str) (dir : PidDir) (name : Str) : Shutdown :=
  (files.filter (globMatches name)).foldl (shutdownFile alive self name) { dir := dir }

end JaplusProxy.Manager
