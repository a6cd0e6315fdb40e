import JaplusProxy.PyRegex
import JaplusProxy.PyText

/-! LogWatcher of japm.py: what is read of the server log, line by line, and the events
that are dispatched for it. `lower` is Python's `str.lower`. -/
namespace JaplusProxy.Manager.LogWatcher
open PyString PyRegex

inductive EventType where
  | serverShutdown
  | mapChange
  | playerConnect
  | playerDisconnect
  | playerBegin
  | playerChat
  | playerChatTeam
  | playerCommand
  | playerKill
  | roundExit
  deriving DecidableEq

structure LogEvent where
  type : EventType
  data : List (Str × Str) := []
  deriving DecidableEq

/-- `PlayerChatEvent(..)` -/
def playerChatEvent (lower : Str → Str) (id name message : Str) (team : Bool) : LogEvent :=
  let data := [(str "player_id", id), (str "player_name", name), (str "message", message)]
  match message with
  | '!' :: rest =>
    let (command, args) := match splitOnce rest with
      | [] => ([], [])
      | [command] => (lower command, [])
      | command :: args :: _ => (lower command, args)
    ⟨.playerCommand, data ++ [(str "command", command), (str "args", args)]⟩
  | _ => ⟨if team then .playerChatTeam else .playerChat, data⟩

/-! ### Patterns -/

/-- `^(\d+):\s+(.+?)\s+say:\s+"(.+)"`, for a verb of saying. -/
def chatRe (verb : String) : List Item :=
  [.group isDecimal true, .text (str ":"), .many isSpace true, .group dot false, .many isSpace true, .text (str verb),
    .many isSpace true, .text ['"'], .group dot true, .text ['"']]

def playerRe : List Item := chatRe "say:"
def teamRe : List Item := chatRe "sayteam:"

/-- `Kill:\s+(\d+)\s+(\d+)\s+.+?: (.+?)(?: teamkilled)?$` -/
def killRe : List Item :=
  [.text (str "Kill:"), .many isSpace true, .group isDecimal true, .many isSpace true, .group isDecimal true,
    .many isSpace true, .many dot false, .text (str ": "), .group dot false, .optional (str " teamkilled"), .stop]

/-- `InitGame:\\` -/
def mapRe : List Item := [.text (str "InitGame:\\")]

/-! ### One line -/

/-- The address among the words of a ClientConnect line. -/
def connectIp : List Str → Str
  | [] => []
  | token :: rest =>
    if 2 ≤ token.count '.' ∧ ('@' ∈ token ∨ ':' ∈ token) then beforeLast ':' (stripOf (· == '@') token)
    else connectIp rest

/-- An exception that leaves `_parse_line`. -/
inductive PyError where
  | indexError
  deriving DecidableEq

/-- `line.split()[1]` as the player. -/
def playerLine (type : EventType) (line : Str) : Except PyError (List LogEvent) :=
  match (split line)[1]? with
  | some id => .ok [⟨type, [(str "player_id", id)]⟩]
  | none => .error .indexError

def mapName (line : Str) : Str :=
  match (splitBy (str "\\mapname\\") 0 line)[1]? with
  | some rest => ((rest.splitOn '\\')[0]?).getD []
  | none => []

/-- The lines that are told by how they begin. -/
def parsePrefix (line : Str) : Except PyError (List LogEvent) :=
  if str "ShutdownGame" <+: line then .ok [⟨.serverShutdown, []⟩]
  else if str "ClientConnect:" <+: line then
    let sp := split line
    .ok [⟨.playerConnect, [(str "player_id", (sp[1]?).getD (str "0")), (str "ip", connectIp sp)]⟩]
  else if str "ClientDisconnect:" <+: line then playerLine .playerDisconnect line
  else if str "ClientBegin:" <+: line then playerLine .playerBegin line
  else if str "Exit:" <+: line then .ok [⟨.roundExit, []⟩]
  else if (firstMatch mapRe line).isSome then .ok [⟨.mapChange, [(str "map", mapName line)]⟩]
  else .ok []

/-- `_parse_line` -/
def parseLine (lower : Str → Str) (line : Str) : Except PyError (List LogEvent) :=
  match firstMatch playerRe line with
  | some [id, name, message] => .ok [playerChatEvent lower id name message false]
  | _ =>
    match firstMatch teamRe line with
    | some [id, name, message] => .ok [playerChatEvent lower id name message true]
    | _ =>
      match firstMatch killRe line with
      | some [killer, victim, weapon] =>
        .ok [⟨.playerKill, [(str "killer_id", killer), (str "victim_id", victim), (str "weapon", weapon)]⟩]
      | _ => parsePrefix line

/-! ### One poll -/

/-- The events dispatched, and the exception that ended the poll, if any. -/
structure Polled where
  events : List LogEvent
  raised : Option PyError
  deriving DecidableEq

def pollLines (lower : Str → Str) : List Str → Polled
  | [] => ⟨[], none⟩
  | raw :: rest =>
    let line := strip raw
    if line = [] then pollLines lower rest
    else
      match parseLine lower line with
      | .error e => ⟨[], some e⟩
      | .ok events =>
        let later := pollLines lower rest
        ⟨events ++ later.events, later.raised⟩

/-- `poll`, where `lines` is what the file has since the last poll. -/
def poll (lower : Str → Str) (lines : Str) : Polled :=
  if lines = [] then ⟨[], none⟩ else pollLines lower (lines.splitOn '\n')

/-- The polls of a run. An exception ends its poll, and the manager's loop goes on. -/
def pollAll (lower : Str → Str) (pieces : List Str) : List LogEvent :=
  pieces.flatMap fun piece => (poll lower piece).events

end JaplusProxy.Manager.LogWatcher
