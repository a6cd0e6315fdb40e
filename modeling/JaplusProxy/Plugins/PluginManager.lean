import JaplusProxy.Manager.Watchdog

/-! PluginManager of plugins/manager.py, what cmd_start does with it, and which of the
configured plugins japm.py gives to it. A plugin may be any program: `σ` is what its object
holds, `ω` what the world answers during one callback, and `ε` what an Event object holds. -/
namespace JaplusProxy.Plugins
open PyString
open Manager.Watchdog (Settings)

variable {σ ω ε : Type}

inductive Ending where
  /-- With the truth of what it returns. -/
  | returned (truth : Bool)
  /-- By an `Exception`. -/
  | raised
  /-- By an exception that is none, such as SystemExit. -/
  | escaped
  deriving DecidableEq

/-- What a callback does. -/
structure Outcome (σ : Type) where
  state : σ
  /-- What it sends through the API. -/
  commands : List Str := []
  ending : Ending

/-- A subclass of BasePlugin. -/
structure PluginClass (σ ω ε : Type) where
  /-- `cls()`; it may raise. -/
  new : Option σ
  onInit : ω → σ → Outcome σ
  onStart : ω → σ → Outcome σ
  /-- With the event as it leaves it. -/
  onEvent : ε → ω → σ → Outcome σ × ε
  onLoop : ω → σ → Outcome σ
  onFinish : ω → σ → Outcome σ

structure Plugin (σ ω ε : Type) where
  cls : PluginClass σ ω ε
  state : σ

/-! ### Callbacks -/

inductive Callback (ε : Type) where
  | start
  | event (e : ε)
  | loop
  | finish
  deriving DecidableEq

/-- A callback, and what the next plugin would be called with. -/
def Plugin.call (p : Plugin σ ω ε) (c : Callback ε) (w : ω) : Outcome σ × Callback ε :=
  match c with
  | .start => (p.cls.onStart w p.state, .start)
  | .event e =>
    let (outcome, e) := p.cls.onEvent e w p.state
    (outcome, .event e)
  | .loop => (p.cls.onLoop w p.state, .loop)
  | .finish => (p.cls.onFinish w p.state, .finish)

/-- Why the plugins behind are not called. -/
inductive Halt where
  | kept
  | escaped
  deriving DecidableEq

/-- The plugins after a round of callbacks. -/
structure Round (σ ω ε : Type) where
  plugins : List (Plugin σ ω ε)
  commands : List Str
  /-- What a plugin behind these would be called with. -/
  handed : Callback ε
  halted : Option Halt := none

/-- `start_all`, `loop_all` and `finish_all` -/
def callAll (c : Callback ε) (w : ω) : List (Plugin σ ω ε) → Round σ ω ε
  | [] => ⟨[], [], c, none⟩
  | p :: rest =>
    let (outcome, c) := p.call c w
    let p := { p with state := outcome.state }
    if outcome.ending = .escaped then ⟨p :: rest, outcome.commands, c, some .escaped⟩
    else
      let after := callAll c w rest
      ⟨p :: after.plugins, outcome.commands ++ after.commands, after.handed, after.halted⟩

/-- All plugins get the same Event object. -/
def dispatch (e : ε) (w : ω) : List (Plugin σ ω ε) → Round σ ω ε
  | [] => ⟨[], [], .event e, none⟩
  | p :: rest =>
    let (outcome, e) := p.cls.onEvent e w p.state
    let p := { p with state := outcome.state }
    match outcome.ending with
    | .returned true => ⟨p :: rest, outcome.commands, .event e, some .kept⟩
    | .escaped => ⟨p :: rest, outcome.commands, .event e, some .escaped⟩
    | .returned false | .raised =>
      let after := dispatch e w rest
      ⟨p :: after.plugins, outcome.commands ++ after.commands, after.handed, after.halted⟩

def round (plugins : List (Plugin σ ω ε)) (c : Callback ε) (w : ω) : Round σ ω ε :=
  match c with
  | .event e => dispatch e w plugins
  | c => callAll c w plugins

/-! ### From start_all to finish_all -/

structure Run (σ ω ε : Type) where
  plugins : List (Plugin σ ω ε)
  commands : List (List Str)
  /-- The rounds that were begun, with what the world answered in each. -/
  begun : List (Callback ε × ω)

/-- The rounds of the watchdog loop, until an exception leaves it. -/
def runRounds (plugins : List (Plugin σ ω ε)) : List (Callback ε × ω) → Run σ ω ε
  | [] => ⟨plugins, [], []⟩
  | (c, w) :: rest =>
    let now := round plugins c w
    if now.halted = some .escaped then ⟨now.plugins, [now.commands], [(c, w)]⟩
    else
      let later := runRounds now.plugins rest
      ⟨later.plugins, now.commands :: later.commands, (c, w) :: later.begun⟩

/-- `watcher.poll` dispatches an event, or, for `none`, `loop_all` is called. -/
def turn (t : Option ε × ω) : Callback ε × ω := (t.1.elim .loop .event, t.2)

/-- cmd_start from start_all on. The loop stands in a `try` whose `finally` calls finish_all. -/
def manage (plugins : List (Plugin σ ω ε)) (start : ω) (turns : List (Option ε × ω)) (finish : ω) : Run σ ω ε :=
  let first := callAll .start start plugins
  if first.halted = some .escaped then ⟨first.plugins, [first.commands], [(.start, start)]⟩
  else
    let looped := runRounds first.plugins (turns.map turn)
    let last := callAll .finish finish looped.plugins
    { plugins := last.plugins
      commands := first.commands :: looped.commands ++ [last.commands]
      begun := (.start, start) :: looped.begun ++ [(.finish, finish)] }

/-! ### Loading -/

/-- What importing `plugins.<name>` gives. -/
inductive Module (σ ω ε : Type) where
  /-- ModuleNotFoundError -/
  | missing
  /-- Any other exception, which is not caught. -/
  | broken
  /-- No subclass of BasePlugin is in it. -/
  | classless
  | plugin (cls : PluginClass σ ω ε)

/-- `_load_one`; `none` where an exception leaves it. -/
def loadOne (module : Module σ ω ε) (w : ω) (plugins : List (Plugin σ ω ε)) : Option (List (Plugin σ ω ε)) :=
  match module with
  | .missing => some plugins
  | .broken => none
  | .classless => some plugins
  | .plugin cls =>
    match cls.new with
    | none => none
    | some inst =>
      let outcome := cls.onInit w inst
      match outcome.ending with
      | .returned true => some (plugins ++ [⟨cls, outcome.state⟩])
      | .returned false | .raised => some plugins
      | .escaped => none

/-- An entry of `cfg["plugins"]`. -/
structure Configured where
  name : Str
  settings : Settings
  /-- Its `type` is "standalone". -/
  standalone : Bool
  /-- `plugins/<name>/<name>.py` exists. -/
  script : Bool

/-- `load_from_config` on one entry. -/
def loadFromConfig (module : Module σ ω ε) (w : ω) (entry : Configured) (plugins : List (Plugin σ ω ε)) :
    Option (List (Plugin σ ω ε)) :=
  let (ptype, enabled) := match entry.settings with
    | .dict enabled => (entry.standalone, enabled.getD true)
    | _ => (false, true)
  if ¬ enabled then some plugins
  else if ptype then some plugins
  else loadOne module w plugins

/-- `_init_plugins`, with what the world answers to each plugin. -/
def initPlugins (modules : Str → Module σ ω ε) (w : Str → ω) : List Configured → List (Plugin σ ω ε) →
    Option (List (Plugin σ ω ε))
  | [], plugins => some plugins
  | entry :: rest, plugins =>
    if ¬ entry.settings.enabled then initPlugins modules w rest plugins
    else if entry.script then initPlugins modules w rest plugins
    else
      match loadFromConfig (modules entry.name) (w entry.name) entry plugins with
      | none => none
      | some plugins => initPlugins modules w rest plugins

/-- The scripts that start_standalone_plugins runs, where nothing raises. -/
def standaloneScripts (entries : List Configured) : List Str :=
  (entries.filter fun entry => entry.settings.enabled ∧ entry.script).map Configured.name

end JaplusProxy.Plugins
