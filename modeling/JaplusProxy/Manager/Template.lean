import JaplusProxy.Placeholders
import JaplusProxy.Manager.Sessions

/-! The engine's configuration: server.template with the values of an instance put in. -/
namespace JaplusProxy.Manager.Template
open PyString Placeholders

/-- What stands in an instance's JSON file. -/
inductive Value where
  | text (s : Str)
  | int (i : Int)
  | bool (b : Bool)
  | null
  /-- a float, a list or a dictionary, as `str` prints it -/
  | other (printed : Str)
  deriving DecidableEq

/-- `str(value)` -/
def Value.str : Value → Str
  | .text s => s
  | .int i => PyString.str (toString i)
  | .bool true => PyString.str "True"
  | .bool false => PyString.str "False"
  | .null => PyString.str "None"
  | .other printed => printed

/-- `cfg["security"]`, which may leave anything out. -/
structure Security where
  rconPassword : Option Value := none
  serverPassword : Option Value := none
  councilPassword : Option Value := none
  knightPassword : Option Value := none
  instructorPassword : Option Value := none

/-- `cfg["game"]` -/
structure Game where
  messageOfTheDay : Option Value := none
  startingMap : Option Value := none
  gametype : Option Value := none
  maxclients : Option Value := none
  timelimit : Option Value := none
  fraglimit : Option Value := none
  capturelimit : Option Value := none
  duellimit : Option Value := none
  duelFraglimit : Option Value := none
  clanPass : Option Value := none
  clanTag : Option Value := none
  cvars : PyDict Str Value := PyDict.empty

structure Config where
  name : Str
  /-- `cfg["server"]["host_name"]` -/
  hostName : Option Value := none
  security : Security := {}
  game : Game := {}

inductive PyError where
  /-- `replace` of what is no text -/
  | attributeError
  /-- `replace` by what is no text -/
  | typeError
  deriving DecidableEq

/-- `game.get("message_of_the_day", "").replace("\n", "\\n")` -/
def messageOfTheDay (game : Game) : Except PyError Value :=
  match game.messageOfTheDay.getD (.text []) with
  | .text s => .ok (.text (replace s ['\n'] (str "\\n")))
  | _ => .error .attributeError

/-- The dictionary that build_template_values begins with. -/
def fixedValues (cfg : Config) (motd : Value) : List (Str × Value) := [
  (str "instance_name", .text cfg.name),
  (str "host_name", cfg.hostName.getD (.text (str "JA+ Server"))),
  (str "message_of_the_day", motd),
  (str "rcon_password", cfg.security.rconPassword.getD (.text [])),
  (str "server_password", cfg.security.serverPassword.getD (.text [])),
  (str "log_name", .text (cfg.name ++ str "-games.log")),
  (str "starting_map", cfg.game.startingMap.getD (.text (str "mp/ffa5"))),
  (str "gametype", .text (cfg.game.gametype.getD (.int 0)).str),
  (str "maxclients", .text (cfg.game.maxclients.getD (.int 14)).str),
  (str "timelimit", .text (cfg.game.timelimit.getD (.int 40)).str),
  (str "fraglimit", .text (cfg.game.fraglimit.getD (.int 0)).str),
  (str "capturelimit", .text (cfg.game.capturelimit.getD (.int 20)).str),
  (str "duellimit", .text (cfg.game.duellimit.getD (.int 5)).str),
  (str "duel_fraglimit", .text (cfg.game.duelFraglimit.getD (.int 1)).str),
  (str "council_pass", cfg.security.councilPassword.getD (.text [])),
  (str "knight_pass", cfg.security.knightPassword.getD (.text [])),
  (str "instructor_pass", cfg.security.instructorPassword.getD (.text [])),
  (str "clan_pass", cfg.game.clanPass.getD (.text [])),
  (str "clan_tag", cfg.game.clanTag.getD (.text []))]

def cvarKey (name : Str) : Str := str "cvar_" ++ name

/-- `'seta %s "%s"'` -/
def setaLine (cvar : Str × Value) : Str := str "seta " ++ cvar.1 ++ str " \"" ++ cvar.2.str ++ str "\""

/-- `out[key] = value` for each of the items. -/
def assign (out : PyDict Str Value) (items : List (Str × Value)) : PyDict Str Value :=
  items.foldl (fun out item => out.set item.1 item.2) out

/-- `build_template_values` -/
def buildTemplateValues (cfg : Config) : Except PyError (PyDict Str Value) := do
  let motd ← messageOfTheDay cfg.game
  let out := assign PyDict.empty (fixedValues cfg motd)
  let out := assign out (cfg.game.cvars.items.map fun cvar => (cvarKey cvar.1, .text cvar.2.str))
  .ok (out.set (str "extra_cvars") (.text (['\n'].intercalate (cfg.game.cvars.items.map setaLine))))

/-- The loop of generate_server_cfg. -/
def substitute : List (Str × Value) → Str → Except PyError Str
  | [], result => .ok result
  | (key, .text val) :: rest, result => substitute rest (replace result (bracket key) val)
  | (_, _) :: _, _ => .error .typeError

/-- A file of the mod directory. -/
structure ServerCfg where
  dir : Str
  file : Str
  text : Str
  deriving DecidableEq

/-- `generate_server_cfg`, from the mod directory and the template, where there are any. -/
def generateServerCfg (moddir template : Option Str) (cfg : Config) : Except PyError (Option ServerCfg) :=
  match moddir, template with
  | none, _ => .ok none
  | some _, none => .ok none
  | some outDir, some template => do
    let values ← buildTemplateValues cfg
    let result ← substitute values.items template
    .ok (some { dir := outDir, file := serverCfg cfg.name, text := result })

end JaplusProxy.Manager.Template
