import JaplusProxy.PyString
import JaplusProxy.Manager.PidFiles

/-! The screen sessions of the instances: how japm.py finds them, and the commands by
which it clears them away before a start. -/
namespace JaplusProxy.Manager
open PyString

/-- `"jap_%s" % name` -/
def sessionName (name : Str) : Str := str "jap_" ++ name

/-- `"%s-server.cfg" % name` -/
def serverCfg (name : Str) : Str := name ++ str "-server.cfg"

/-- `_engine_alive`; no output is a `screen -list` that failed. -/
def engineAlive (alive : Int → Bool) (dir : PidDir) (name : Str) (output : Option Str) : Bool :=
  if isPidAlive alive (readPid dir name (str "engine")) then true
  else output.any fun text => sessionName name <:+: text

/-- `_engine_exists`; `found` is what pgrep says. -/
def engineExists (name : Str) (output : Option Str) (found : Bool) : Bool :=
  (output.any fun text => sessionName name <:+: text) && found

/-! ### Clearing -/

/-- The patterns of pkill, for names that are no patterns themselves. -/
inductive Pattern where
  | text (s : Str)
  /-- `screen.*` and the text -/
  | screenThen (s : Str)
  deriving DecidableEq

/-- The pattern matches somewhere in the line. -/
def Pattern.found : Pattern → Str → Bool
  | .text s, line => s <:+: line
  | .screenThen s, line => line.tails.any fun rest => (str "screen").isPrefixOf rest && decide (s <:+: rest.drop 6)

inductive Command where
  /-- `screen -S session -X quit` -/
  | quit (session : Str)
  /-- `pkill -9 -f` -/
  | pkill (pattern : Pattern)
  /-- `screen -list` -/
  | list
  /-- `screen -wipe` -/
  | wipe
  deriving DecidableEq

/-- `_engine_kill`; what follows it waits for the port. -/
def engineKill (name : Str) : List Command := [
  .quit (sessionName name),
  .pkill (.screenThen (sessionName name)),
  .wipe,
  .pkill (.text (str "+exec " ++ serverCfg name))]

/-- The loop of start_engine, with the outputs of `screen -list`; where they end, a
command has failed and start_engine with it. -/
def staleLoop (name : Str) : Nat → List Str → List Command
  | 0, _ => []
  | _ + 1, [] => [.list]
  | tries + 1, output :: outputs =>
    .list :: if sessionName name <:+: output then
        [.quit (sessionName name), .pkill (.text (sessionName name)), .wipe] ++ staleLoop name tries outputs
      else []

/-- What start_engine runs before it launches. -/
def clearCommands (name : Str) (outputs : List Str) : List Command := engineKill name ++ staleLoop name 5 outputs

/-- A process of some screen session. -/
structure Proc where
  session : Str
  cmdline : Str

/-- `screen -S` addresses only the session of that name. -/
def Command.signals (p : Proc) : Command → Bool
  | .quit session => p.session = session
  | .pkill pattern => pattern.found p.cmdline
  | .list | .wipe => false

/-! ### Launching -/

/-- What start_engine takes from the configuration. -/
structure Launch where
  engine : Str
  port : Str
  gamedata : Str
  fsGame : Str
  /-- `engine_log_path` -/
  elog : Str

/-- Characters that `shlex.quote` leaves alone. -/
def safe (c : Char) : Bool := c.isAlphanum || c ∈ str "@%+=:,./-_"

/-- `shlex.quote` -/
def quote (s : Str) : Str :=
  if s = [] then str "''" else if s.all safe then s else '\'' :: replace s (str "'") (str "'\"'\"'") ++ ['\'']

/-- `" ".join` -/
def joined (args : List Str) : Str := [' '].intercalate args

def engineCmd (l : Launch) (name : Str) : List Str := [
  l.engine,
  str "+set", str "dedicated", str "2",
  str "+set", str "net_port", l.port,
  str "+set", str "fs_homepath", l.gamedata,
  str "+set", str "fs_game", l.fsGame,
  str "+exec", serverCfg name]

/-- `exec` keeps the process and redirects it to the log. -/
def shellCmd (l : Launch) (name : Str) : Str :=
  str "exec " ++ joined ((engineCmd l name).map quote) ++ str " >>" ++ quote l.elog ++ str " 2>&1"

def screenCmd (l : Launch) (name : Str) : List Str :=
  [str "screen", str "-dmS", sessionName name, str "sh", str "-c", shellCmd l name]

/-- The two processes of a launch, which keep their command lines; screen spells its own
in capitals. -/
def launched (l : Launch) (name : Str) : List Proc := [
  { session := sessionName name, cmdline := joined (str "SCREEN" :: (screenCmd l name).tail) },
  { session := sessionName name, cmdline := joined (engineCmd l name) }]

end JaplusProxy.Manager
