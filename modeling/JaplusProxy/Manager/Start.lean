import JaplusProxy.PyPath
import JaplusProxy.Manager.Deploy
import JaplusProxy.Manager.Dotenv
import JaplusProxy.Manager.Sessions
import JaplusProxy.Manager.Template

/-! How cmd_start of japm.py comes to launch the engine: where the game lies, whether the
proxy can go there, and what the engine is started with. A path names one file, and only
japm.py writes the files of the game while it deploys. -/
namespace JaplusProxy.Manager.Start
open PyString Dotenv

/-! ### Files -/

inductive Node where
  | missing
  /-- What cannot be looked at; `exists()` raises. -/
  | denied
  | dir
  /-- With its content, where it can be read. -/
  | file (content : Option Content)
  deriving DecidableEq

/-- `path.exists()` -/
def Node.there : Node → Option Bool
  | .missing => some false
  | .denied => none
  | .dir | .file _ => some true

/-- `path.read_bytes()` -/
def Node.read : Node → Option Content
  | .file content => content
  | _ => none

abbrev Fs := PyPath → Node

/-- `path.write_bytes(content)` -/
def writeBytes (fs : Fs) (path : PyPath) (content : Content) : Fs := Function.update fs path (.file (some content))

/-- `path.rename(target)` -/
def rename (fs : Fs) (path target : PyPath) : Fs :=
  Function.update (Function.update fs target (fs path)) path .missing

def engineBin : PyPath := .name (str "linuxjampded")
def gameLib : PyPath := .name (str "jampgamei386.so")
def realLibName : PyPath := .name (str "japlus_real_i386.so")

/-- `(d / a).exists() or (d / b).exists()`, where a name that raises ends the search in d. -/
def holds (fs : Fs) (dir : PyPath) : List PyPath → Bool
  | [] => false
  | name :: rest =>
    match (fs (dir.join name)).there with
    | none => false
    | some true => true
    | some false => holds fs dir rest

/-! ### Configuration -/

/-- What japm.py finds around it. -/
structure Host where
  environ : Environ
  home : PyPath
  cwd : PyPath
  /-- `REPO_PROXY_SO` -/
  repoProxySo : PyPath
  /-- `which("screen")` -/
  screen : Bool

/-- `cfg["proxy"]`; what is no dictionary counts as one without entries. -/
structure Proxy where
  enabled : Bool := true
  source : Str := []
  realLib : Str := []
  noHooks : Bool := false
  noOob : Bool := false

structure Config where
  name : Str
  server : PyDict Str Template.Value
  proxy : Proxy := {}

/-- `if value:` -/
def truthy : Template.Value → Bool
  | .text s => s ≠ []
  | .int i => i ≠ 0
  | .bool b => b
  | .null => false
  | .other printed => printed ∉ [str "0.0", str "-0.0", ['[', ']'], ['\x7b', '\x7d']]

/-- `server.get(key, "")`, for settings that are texts. -/
def setting (server : PyDict Str Template.Value) (key : Str) : Str :=
  match server.get? key with
  | some (.text s) => s
  | _ => []

/-- The settings that japm.conf may give for all instances. -/
def shared : List Str := [str "ja_path", str "engine", str "fs_game"]

/-- One pass of the loop of merge_config. -/
def mergeKey (server cfg : PyDict Str Template.Value) (key : Str) : PyDict Str Template.Value :=
  match (server.get? key).filter truthy with
  | some value => cfg.set key value
  | none => if (cfg.get? key).isSome then cfg else cfg.set key (.text [])

/-- `merge_config`, on the server section. -/
def mergeConfig (globalCfg server : PyDict Str Template.Value) : PyDict Str Template.Value :=
  server.update (shared.foldl (mergeKey server) globalCfg)

/-! ### Where the game is -/

/-- The places where find_japlus looks. -/
def places (host : Host) : List PyPath := [
  host.cwd,
  host.home.join (.parse (str "JediAcademy/GameData")),
  host.home.join (.parse (str "japlus/GameData")),
  .parse (str "/opt/japlus/GameData"),
  .parse (str "/home/japlus/GameData"),
  host.home.join (.parse (str ".local/share/openjk"))]

def findJaplus (host : Host) (fs : Fs) : Option PyPath := (places host).find? fun p => holds fs p [engineBin, gameLib]

/-- What ja_gamedata is told, by the instance or by the environment. -/
def configured (host : Host) (cfg : Config) : Str :=
  let path := setting cfg.server (str "ja_path")
  if path = [] then (host.environ.get? (str "JAPLUS_HOME")).getD [] else path

/-- The end of ja_gamedata. -/
def resolve (path : Str) : Option PyPath := if path = [] ∨ path = ['.'] then none else some (.parse path)

def Config.setText (cfg : Config) (key s : Str) : Config := { cfg with server := cfg.server.set key (.text s) }

/-- `ja_gamedata`, with the configuration that it leaves. -/
def jaGamedata (host : Host) (fs : Fs) (cfg : Config) : Option PyPath × Config :=
  let path := configured host cfg
  if path ≠ [] then (resolve path, cfg)
  else
    match findJaplus host fs with
    | some detected => (resolve detected.toStr, cfg.setText (str "ja_path") detected.toStr)
    | none => (resolve path, cfg)

/-- `cfg["server"].get("fs_game", "") or FS_GAME` -/
def fsGame (cfg : Config) : Str :=
  let dir := setting cfg.server (str "fs_game")
  if dir = [] then str "japlus" else dir

def jaModdir (host : Host) (fs : Fs) (cfg : Config) : Option PyPath × Config :=
  match jaGamedata host fs cfg with
  | (none, cfg) => (none, cfg)
  | (some gamedata, cfg) => (some (gamedata.join (.parse (fsGame cfg))), cfg)

def gameLibDirs (host : Host) (fs : Fs) (cfg : Config) : List PyPath × Config :=
  match jaGamedata host fs cfg with
  | (none, cfg) => ([], cfg)
  | (some gamedata, cfg) =>
    match jaModdir host fs cfg with
    | (none, cfg) => ([gamedata], cfg)
    | (some moddir, cfg) => ([moddir, gamedata], cfg)

def gameLibDir (host : Host) (fs : Fs) (cfg : Config) : Option PyPath × Config :=
  let (dirs, cfg) := gameLibDirs host fs cfg
  (dirs.find? fun d => holds fs d [gameLib, realLibName], cfg)

/-! ### The proxy -/

def isElf32 (node : Node) : Bool :=
  match node.read with
  | some content => content.take 4 = [0x7F, 0x45, 0x4C, 0x46] ∧ (content.drop 4).take 1 = [1]
  | none => false

/-- `Path(proxy.get("source", "") or str(REPO_PROXY_SO))` -/
def source (host : Host) (proxy : Proxy) : PyPath :=
  .parse (if proxy.source = [] then host.repoProxySo.toStr else proxy.source)

/-- `path.read_bytes() if path.exists() else None`; what it raises is none. -/
def readIfThere (node : Node) : Option (Option Content) :=
  match node.there with
  | none => none
  | some false => some none
  | some true => node.read.map some

/-- The warning about a second library. -/
def shadow (fs : Fs) (libdir other : PyPath) : Str :=
  if other = libdir then []
  else
    match readIfThere (fs (other.join gameLib)), readIfThere (fs (libdir.join gameLib)) with
    | some (some a), some (some b) =>
      if a ≠ b then
        str "; WARNING: different jampgamei386.so also in " ++ other.toStr ++ str " -- engine may load that one instead"
      else []
    | _, _ => []

/-- What proxy_preflight answers. -/
structure Preflight where
  ok : Bool
  msg : Str
  deriving DecidableEq

def notSet (name : Str) : Str :=
  str "GameData not set - put the linuxjampded folder in japm.conf (ja_path) or server.ja_path (" ++ name ++
    str ".json), or export JAPLUS_HOME, or run from that folder"

def proxyPreflight (host : Host) (fs : Fs) (cfg : Config) : Option (Preflight × Config) :=
  if ¬ cfg.proxy.enabled then some (⟨true, str "proxy disabled in config"⟩, cfg)
  else
    match jaGamedata host fs cfg with
    | (none, cfg) => some (⟨false, notSet cfg.name⟩, cfg)
    | (some gamedata, cfg) => do
      let src := source host cfg.proxy
      if ¬ (← (fs src).there) then
        return (⟨false, str "japlusproxy.so not found at " ++ src.toStr ++ str " (build it: cd proxy && make)"⟩, cfg)
      if ¬ isElf32 (fs src) then return (⟨false, src.toStr ++ str " is not a 32-bit ELF"⟩, cfg)
      if ¬ (← (fs gamedata).there) then
        return (⟨false, str "GameData dir does not exist: " ++ gamedata.toStr⟩, cfg)
      match gameLibDir host fs cfg with
      | (none, cfg) =>
        let (dirs, cfg) := gameLibDirs host fs cfg
        return (⟨false, str "no jampgamei386.so (or japlus_real_i386.so) in " ++
          (str ", ").intercalate (dirs.map PyPath.toStr)⟩, cfg)
      | (some libdir, cfg) =>
        let msg := str "proxy ready (" ++ src.toStr ++ str " -> " ++ libdir.toStr ++ str ")"
        let (dirs, cfg) := gameLibDirs host fs cfg
        return (⟨true, msg ++ dirs.flatMap (shadow fs libdir)⟩, cfg)

/-- The file operations of ensure_proxy. -/
def place (fs : Fs) (stock real : PyPath) (present : Option Content) (preserved : Bool) (wrapper : Content) : Fs :=
  let current := present.getD []
  let fs := if ¬ preserved ∧ present.isSome ∧ current ≠ wrapper then rename fs stock real else fs
  if current ≠ wrapper then writeBytes fs stock wrapper else fs

/-- ensure_proxy in a directory. -/
def deploy (fs : Fs) (libdir src : PyPath) : Option Fs := do
  let stock := libdir.join gameLib
  let real := libdir.join realLibName
  let present ← readIfThere (fs stock)
  let wrapper ← (fs src).read
  let preserved ← (fs real).there
  return place fs stock real present preserved wrapper

/-- `ensure_proxy`, on the files themselves. -/
def ensureProxy (host : Host) (fs : Fs) (cfg : Config) : Option (Fs × Bool × Config) :=
  if ¬ cfg.proxy.enabled then some (fs, false, cfg)
  else
    match gameLibDir host fs cfg with
    | (none, cfg) => some (fs, false, cfg)
    | (some libdir, cfg) => (deploy fs libdir (source host cfg.proxy)).map fun fs => (fs, true, cfg)

/-! ### The engine -/

def setIf (condition : Bool) (key value : Str) (env : Environ) : Environ := if condition then env.set key value else env

def buildEnv (host : Host) (fs : Fs) (cfg : Config) : Environ × Config :=
  let (libdir, cfg) := gameLibDir host fs cfg
  let (libdir, cfg) :=
    match libdir with
    | some libdir => (some libdir, cfg)
    | none => jaGamedata host fs cfg
  let real :=
    if cfg.proxy.realLib ≠ [] then cfg.proxy.realLib
    else
      match libdir with
      | some libdir => (libdir.join realLibName).toStr
      | none => []
  let env := setIf cfg.proxy.enabled (str "JAPLUS_REAL") real host.environ
  let env := setIf cfg.proxy.noHooks (str "JAPLUS_NO_HOOKS") (str "1") env
  (setIf cfg.proxy.noOob (str "JAPLUS_NO_OOB") (str "1") env, cfg)

/-- The first of some paths that is there; what raises ends the search. -/
def firstThere (fs : Fs) : List PyPath → Option (Option PyPath)
  | [] => some none
  | path :: rest => do if ← (fs path).there then return some path else firstThere fs rest

def findEngine (host : Host) (fs : Fs) (cfg : Config) : Option (Str × Config) := do
  let path := (host.environ.get? (str "PATH")).getD []
  match ← firstThere fs ((path.splitOn ':').map fun p => (PyPath.parse p).join engineBin) with
  | some full => return (full.toStr, cfg)
  | none =>
    match jaGamedata host fs cfg with
    | (none, cfg) => return (str "linuxjampded", cfg)
    | (some gamedata, cfg) =>
      let full := gamedata.join engineBin
      return (if ← (fs full).there then full.toStr else str "linuxjampded", cfg)

/-- What an engine is started with. -/
structure Started where
  launch : Launch
  command : List Str
  env : Environ
  cwd : Str

def started (host : Host) (gamedata moddir : PyPath) (cfg : Config) (port : Template.Value) (env : Environ) : Started :=
  let elog := moddir.join (.parse (cfg.name ++ str "-engine.log"))
  let launch : Launch :=
    ⟨setting cfg.server (str "engine"), port.str, gamedata.toStr, fsGame cfg, elog.toStr⟩
  ⟨launch, if host.screen then screenCmd launch cfg.name else engineCmd launch cfg.name, env, gamedata.toStr⟩

/-- `cfg["server"]["engine"]`, looked for where it is not set. -/
def chooseEngine (host : Host) (fs : Fs) (cfg : Config) : Option Config :=
  if setting cfg.server (str "engine") = [] then
    (findEngine host fs cfg).map fun (engine, cfg) => cfg.setText (str "engine") engine
  else some cfg

/-- `start_engine`, as far as it says what is started. -/
def startEngine (host : Host) (fs : Fs) (cfg : Config) : Option (Started × Config) := do
  let cfg ← chooseEngine host fs cfg
  let port ← cfg.server.get? (str "port")
  let (gamedata, cfg) := jaGamedata host fs cfg
  let (moddir, cfg) := jaModdir host fs cfg
  let gamedata ← gamedata
  let moddir ← moddir
  let (env, cfg) := buildEnv host fs cfg
  return (started host gamedata moddir cfg port env, cfg)

/-! ### Starting -/

/-- How cmd_start comes to its end or to an engine. -/
inductive Outcome where
  | unconfigured
  | running
  | refused (msg : Str)
  | raised
  | launched (fs : Fs) (started : Started) (cfg : Config)

def launchEngine (host : Host) (fs : Fs) (cfg : Config) : Outcome :=
  match startEngine host fs cfg with
  | none => .raised
  | some (started, cfg) => .launched fs started cfg

/-- proxy_preflight, and ensure_proxy where it says so. -/
def prepare (host : Host) (fs : Fs) (cfg : Config) : Option (Preflight × Fs × Config) := do
  let (preflight, cfg) ← proxyPreflight host fs cfg
  if preflight.ok then
    let (fs, _, cfg) ← ensureProxy host fs cfg
    return (preflight, fs, cfg)
  else return (preflight, fs, cfg)

/-- `cmd_start` up to its engine. `found` is where it looks for the game, and `fs` what it has
when the configuration is generated. -/
def cmdStart (host : Host) (found fs : Fs) (running : Bool) (cfg : Config) : Outcome :=
  match jaGamedata host found cfg with
  | (none, _) => .unconfigured
  | (some gamedata, cfg) =>
    match (found gamedata).there with
    | none => .raised
    | some false => .unconfigured
    | some true =>
      if running then .running
      else
        match prepare host fs cfg with
        | none => .raised
        | some (preflight, fs, cfg) =>
          if ¬ preflight.ok ∧ cfg.proxy.enabled then .refused preflight.msg else launchEngine host fs cfg

/-- The watchdog starts a dead engine again, whatever proxy_preflight says. -/
def restart (host : Host) (fs : Fs) (cfg : Config) : Outcome :=
  match prepare host fs cfg with
  | none => .raised
  | some (_, fs, cfg) => launchEngine host fs cfg

/-- The configuration that is left; once the engine is known, nothing that raises changes it. -/
def Outcome.config (cfg : Config) : Outcome → Config
  | .launched _ _ cfg => cfg
  | _ => cfg

/-- The restarts of a run, each with the files that it finds. -/
def restarts (host : Host) (cfg : Config) : List Fs → List Outcome
  | [] => []
  | fs :: rest =>
    let outcome := restart host fs cfg
    outcome :: restarts host (outcome.config cfg) rest

end JaplusProxy.Manager.Start
