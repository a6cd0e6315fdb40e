import JaplusProxy.Manager.DeployProofs
import JaplusProxy.Manager.Start

/-! What holds of every engine that japm.py starts: it finds the wrapper in the directory
from which it loads its game, and it is told of the original next to it. -/
namespace JaplusProxy.Manager.Start
open PyString

/-! ### Settings -/

/-- What a setting is after the merge, if japm.conf or the instance has it at all. -/
def merged (globalCfg server : PyDict Str Template.Value) (key : Str) : Option Template.Value :=
  if key ∈ shared then
    some (((server.get? key).filter truthy).getD ((globalCfg.get? key).getD (.text [])))
  else (globalCfg.get? key).or (server.get? key)

theorem mergeKey_get (server cfg : PyDict Str Template.Value) (key k : Str) : (mergeKey server cfg key).get? k =
    if k = key then some (((server.get? key).filter truthy).getD ((cfg.get? key).getD (.text []))) else cfg.get? k := by
  rw [mergeKey]
  cases (server.get? key).filter truthy with
  | some value => exact PyDict.get?_set ..
  | none =>
    cases known : cfg.get? key with
    | none => exact PyDict.get?_set ..
    | some value =>
      by_cases here : k = key
      · simp [here, known]
      · simp [here]

theorem mergeKeys_get (server cfg : PyDict Str Template.Value) (keys : List Str) (once : keys.Nodup) (k : Str) :
    (keys.foldl (mergeKey server) cfg).get? k =
      if k ∈ keys then some (((server.get? k).filter truthy).getD ((cfg.get? k).getD (.text []))) else cfg.get? k := by
  induction keys generalizing cfg with
  | nil => simp
  | cons key keys ih =>
    obtain ⟨absent, once⟩ := List.nodup_cons.mp once
    rw [List.foldl_cons, ih _ once]
    by_cases here : k = key
    · subst here
      simp [absent, mergeKey_get]
    · simp [here, mergeKey_get]

theorem mergeConfig_get (globalCfg server : PyDict Str Template.Value) (key : Str) :
    (mergeConfig globalCfg server).get? key = merged globalCfg server key := by
  rw [mergeConfig, PyDict.get?_update, mergeKeys_get _ _ _ (by decide), merged]
  split <;> simp

theorem merged_again (globalCfg server : PyDict Str Template.Value) (key : Str) :
    (shared.foldl (mergeKey (mergeConfig globalCfg server)) globalCfg).get? key = some value →
      merged globalCfg server key = some value := by
  rw [mergeKeys_get _ _ _ (by decide), mergeConfig_get, merged]
  split
  · intro again
    rw [← again]
    cases kept : (server.get? key).filter truthy with
    | some own =>
      have filled : truthy own = true := by
        obtain ⟨_, filled⟩ := Option.filter_eq_some_iff.mp kept
        exact filled
      simp [Option.filter_some, filled]
    | none =>
      generalize (globalCfg.get? key).getD (.text []) = fallback
      by_cases filled : truthy fallback <;> simp [Option.filter_some, filled]
  · intro known
    simp [known]

/-- An instance's own settings come first where they are not empty, then those of japm.conf;
and merging again changes nothing. -/
theorem mergeConfig_spec (globalCfg server : PyDict Str Template.Value) :
    (∀ key, (mergeConfig globalCfg server).get? key = merged globalCfg server key) ∧
      mergeConfig globalCfg (mergeConfig globalCfg server) = mergeConfig globalCfg server := by
  refine ⟨mergeConfig_get globalCfg server, PyDict.update_known fun key value member => ?_⟩
  rw [mergeConfig_get]
  exact merged_again globalCfg server key (PyDict.get?_eq_some.mpr member)

section
variable {host : Host} {fs : Fs} {cfg : Config} {gamedata : PyPath}

/-! ### Where the game is -/

/-- The game is where it is, whatever the files are. -/
def Settled (host : Host) (cfg : Config) (gamedata : PyPath) : Prop := resolve (configured host cfg) = some gamedata

/-- What looking for the game leaves as it was. -/
structure Keeps (cfg after : Config) : Prop where
  name : after.name = cfg.name
  proxy : after.proxy = cfg.proxy
  others : ∀ key, key ≠ str "ja_path" → after.server.get? key = cfg.server.get? key

theorem toStr_ne_nil (p : PyPath) : p.toStr ≠ [] := by
  obtain ⟨root, parts, rooted, clean⟩ := p
  rw [PyPath.toStr]
  split
  · simp
  · rename_i some_
    rw [not_and] at some_
    intro empty
    obtain ⟨noRoot, noParts⟩ := List.append_eq_nil_iff.mp empty
    cases parts with
    | nil => exact some_ noRoot rfl
    | cons part rest =>
      have filled := (clean part (.head _)).1
      cases rest <;> simp [filled] at noParts

@[simp] theorem setting_setText (cfg : Config) (key s : Str) : setting (cfg.setText key s).server key = s := by
  rw [setting, Config.setText, PyDict.get?_set_self]

theorem setting_setText_other (cfg : Config) (s : Str) (other : k ≠ key) :
    setting (cfg.setText key s).server k = setting cfg.server k := by
  rw [setting, Config.setText, PyDict.get?_set_other _ _ other, setting]

theorem Settled.found (settled : Settled host cfg gamedata) (fs : Fs) :
    jaGamedata host fs cfg = (some gamedata, cfg) := by
  have given : configured host cfg ≠ [] := by
    intro empty
    rw [Settled, empty] at settled
    cases settled
  rw [jaGamedata, if_pos given, settled]

/-- Where nothing is configured, the game is at the first place that holds it. -/
def Detected (host : Host) (fs : Fs) (cfg : Config) (gamedata : PyPath) : Prop :=
  configured host cfg = [] → findJaplus host fs = some gamedata

/-- Once it is found it stays. -/
theorem jaGamedata_settles (found : jaGamedata host fs cfg = (some gamedata, after)) :
    Settled host after gamedata ∧ Keeps cfg after ∧ Detected host fs cfg gamedata := by
  unfold jaGamedata at found
  by_cases given : configured host cfg = []
  · rw [if_neg (not_not.mpr given)] at found
    cases detected : findJaplus host fs with
    | none =>
      rw [detected, given] at found
      cases found
    | some place =>
      rw [detected] at found
      obtain ⟨resolved, rfl⟩ := Prod.mk.inj found
      have again : configured host (cfg.setText (str "ja_path") place.toStr) = place.toStr := by
        rw [configured, setting_setText]
        exact if_neg (toStr_ne_nil place)
      refine ⟨?_, ⟨rfl, rfl, fun key other => PyDict.get?_set_other _ _ other⟩, fun _ => ?_⟩
      · rw [Settled, again, resolved]
      · rw [resolve] at resolved
        split at resolved
        · cases resolved
        · rw [detected, ← Option.some.inj resolved, PyPath.parse_toStr]
  · rw [if_pos given] at found
    obtain ⟨resolved, rfl⟩ := Prod.mk.inj found
    exact ⟨resolved, ⟨rfl, rfl, fun key _ => rfl⟩, fun empty => absurd empty given⟩

/-- The directories that the engine searches. -/
def libDirs (cfg : Config) (gamedata : PyPath) : List PyPath := [gamedata.join (.parse (fsGame cfg)), gamedata]

namespace Settled
variable (settled : Settled host cfg gamedata)
include settled

theorem moddir (fs : Fs) : jaModdir host fs cfg = (some (gamedata.join (.parse (fsGame cfg))), cfg) := by
  rw [jaModdir, settled.found fs]

theorem dirs (fs : Fs) : gameLibDirs host fs cfg = (libDirs cfg gamedata, cfg) := by
  rw [gameLibDirs, settled.found fs]
  simp only [settled.moddir fs, libDirs]

theorem dir (fs : Fs) : gameLibDir host fs cfg =
    ((libDirs cfg gamedata).find? fun d => holds fs d [gameLib, realLibName], cfg) := by
  rw [gameLibDir, settled.dirs fs]

end Settled

/-! ### Deploying -/

/-- The two libraries of a directory. -/
def libDir (fs : Fs) (dir : PyPath) : LibDir := ⟨(fs (dir.join gameLib)).read, (fs (dir.join realLibName)).read⟩

/-- The original can be read where it is there at all. -/
def Readable (fs : Fs) (dir : PyPath) : Prop := fs (dir.join realLibName) = .missing ∨
  ∃ original, fs (dir.join realLibName) = .file (some original)

/-- What a deployment into a directory does. -/
structure Deploys (fs after : Fs) (dir : PyPath) (wrapper : Content) : Prop where
  stock : after (dir.join gameLib) = .file (some wrapper)
  others : ∀ path, path ≠ dir.join gameLib → path ≠ dir.join realLibName → after path = fs path
  libs : Readable fs dir → libDir after dir = (libDir fs dir).completed wrapper

theorem readIfThere_none (absent : readIfThere node = some none) : node = .missing := by
  cases node with
  | missing => rfl
  | file content => cases content <;> simp [readIfThere, Node.there, Node.read] at absent
  | _ => simp [readIfThere, Node.there, Node.read] at absent

theorem readIfThere_some (present : readIfThere node = some (some content)) : node = .file (some content) := by
  cases node with
  | file found => simpa [readIfThere, Node.there, Node.read] using present
  | _ => simp [readIfThere, Node.there, Node.read] at present

theorem libs_apart (dir : PyPath) : dir.join gameLib ≠ dir.join realLibName := fun same =>
  absurd (PyPath.join_name_inj _ _ same).2 (by decide)

theorem completed_eq (filled : wrapper ≠ []) (dir : LibDir) (present : dir.stock ≠ none ∨ dir.real ≠ none) :
    dir.completed wrapper = if dir.stock = some wrapper then dir else ⟨some wrapper, dir.real.or dir.stock⟩ := by
  obtain ⟨stock, real⟩ := dir
  cases real with
  | some original =>
    have same : stock.getD [] = wrapper ↔ stock = some wrapper := by
      cases stock with
      | none => simp [Ne.symm filled]
      | some current => simp
    rw [LibDir.completed, ensureProxy_later rfl]
    simp only [same]
    split
    · rfl
    · exact writeWrapper_last ..
  | none =>
    obtain ⟨current, rfl⟩ := Option.ne_none_iff_exists'.mp (present.resolve_right (by simp))
    by_cases same : current = wrapper
    · subst same
      simp [LibDir.completed, Manager.ensureProxy]
    · rw [if_neg (by simpa using same), LibDir.completed, ensureProxy_first (Ne.symm same), List.getLastD_cons,
        writeWrapper_last]
      rfl

theorem place_others (other : path ≠ stock) (other' : path ≠ real) :
    place fs stock real present preserved wrapper path = fs path := by
  rw [place]
  split <;> split <;> simp [writeBytes, rename, other, other']

theorem place_stock (filled : wrapper ≠ [])
    (present_ : ∀ content, present = some content → fs stock = .file (some content)) :
    place fs stock real present preserved wrapper stock = .file (some wrapper) := by
  rw [place]
  by_cases same : present.getD [] = wrapper
  · have there : present = some wrapper := by
      cases present with
      | none => exact absurd same (Ne.symm filled)
      | some content => exact congrArg some same
    simp [same, present_ wrapper there]
  · simp [same, writeBytes]

theorem place_real (apart : stock ≠ real) : place fs stock real present preserved wrapper real =
    if ¬ preserved ∧ present.isSome ∧ present.getD [] ≠ wrapper then fs stock else fs real := by
  rw [place]
  split <;> split <;> simp [writeBytes, rename, apart.symm]

theorem readIfThere_file (read : readIfThere node = some present) : ∀ content, present = some content →
    node = .file (some content) := by
  rintro content rfl
  exact readIfThere_some read

theorem readIfThere_read (read : readIfThere node = some present) : node.read = present := by
  cases present with
  | none => rw [readIfThere_none read]; rfl
  | some content => rw [readIfThere_some read]; rfl

theorem deploy_deploys (held : holds fs dir [gameLib, realLibName] = true) (ran : deploy fs dir src = some after)
    (read : (fs src).read = some wrapper) (filled : wrapper ≠ []) : Deploys fs after dir wrapper := by
  simp only [deploy, Option.bind_eq_bind, Option.bind_eq_some_iff, Option.pure_def, Option.some.injEq] at ran
  obtain ⟨present, stock, found, read', preserved, real, rfl⟩ := ran
  obtain rfl : found = wrapper := Option.some.inj (read'.symm.trans read)
  have placed : place fs (dir.join gameLib) (dir.join realLibName) present preserved found (dir.join gameLib) =
      .file (some found) := place_stock filled (readIfThere_file stock)
  refine ⟨placed, fun path other other' => place_others other other', fun readable => ?_⟩
  rw [libDir, placed, place_real (libs_apart dir)]
  rcases readable with missing | ⟨original, there⟩
  · -- the game itself is there, or the directory would not be taken
    obtain rfl : preserved = false := by simpa [missing, Node.there] using real.symm
    obtain ⟨content, rfl⟩ : ∃ content, present = some content := by
      cases present with
      | some content => exact ⟨content, rfl⟩
      | none => simp [holds, readIfThere_none stock, missing, Node.there] at held
    rw [libDir, readIfThere_some stock, missing, completed_eq filled _ (.inl (by simp [Node.read]))]
    by_cases same : content = found <;> simp [Node.read, same]
  · obtain rfl : preserved = true := by simpa [there, Node.there] using real.symm
    rw [libDir, readIfThere_read stock, there, completed_eq filled _ (.inr (by simp [Node.read]))]
    by_cases same : present = some found <;> simp [Node.read, same]

/-! ### After a deployment -/

theorem find?_kept {α : Type} {p q : α → Bool} {l : List α} {a : α} (found : l.find? p = some a)
    (same : ∀ b, b ≠ a → q b = p b) (kept : q a = true) : l.find? q = some a := by
  induction l with
  | nil => cases found
  | cons b l ih =>
    rw [List.find?_cons] at found ⊢
    by_cases here : b = a
    · rw [here, kept]
    · rw [same b here]
      split at found
      · exact absurd (Option.some.inj found) here
      · exact ih found

theorem Deploys.holds (deploys : Deploys fs after dir wrapper) (other : PyPath) (apart : other ≠ dir) :
    holds after other [gameLib, realLibName] = holds fs other [gameLib, realLibName] := by
  have same {s t : Str} (cleanS : CleanPart s) (cleanT : CleanPart t) :
      other.join (.name s cleanS) ≠ dir.join (.name t cleanT) := fun same =>
    apart (PyPath.join_name_inj cleanS cleanT same).1
  have lib := deploys.others (other.join gameLib) (same _ _) (same _ _)
  have real := deploys.others (other.join realLibName) (same _ _) (same _ _)
  simp only [Start.holds, lib, real]

/-- The engine finds the wrapper first. -/
theorem Deploys.found (deploys : Deploys fs after dir wrapper) (dirs : List PyPath)
    (found : (dirs.find? fun d => Start.holds fs d [gameLib, realLibName]) = some dir) :
    (dirs.find? fun d => Start.holds after d [gameLib, realLibName]) = some dir :=
  find?_kept found deploys.holds (by simp [Start.holds, deploys.stock, Node.there])

/-! ### Before the engine -/

theorem proxyPreflight_settled (settled : Settled host cfg gamedata) (enabled : cfg.proxy.enabled = true)
    (ran : proxyPreflight host fs cfg = some (preflight, after)) : after = cfg ∧ (preflight.ok = true →
      isElf32 (fs (source host cfg.proxy)) = true ∧
        ∃ dir, ((libDirs cfg gamedata).find? fun d => holds fs d [gameLib, realLibName]) = some dir) := by
  rw [proxyPreflight, if_neg (not_not.mpr enabled), settled.found] at ran
  simp only [settled.dir] at ran
  obtain ⟨looked, _, ran⟩ := Option.bind_eq_some_iff.mp ran
  split at ran
  · cases ran
    simp
  · split at ran
    · cases ran
      simp
    · rename_i elf
      obtain ⟨looked, _, ran⟩ := Option.bind_eq_some_iff.mp ran
      split at ran
      · cases ran
        simp
      · cases dir : (libDirs cfg gamedata).find? fun d => holds fs d [gameLib, realLibName] with
        | none =>
          simp only [dir, settled.dirs] at ran
          cases ran
          simp
        | some libdir =>
          simp only [dir, settled.dirs] at ran
          cases ran
          exact ⟨rfl, fun _ => ⟨not_not.mp elf, libdir, rfl⟩⟩

/-- The wrapper is where the engine finds its game first. -/
structure Placed (host : Host) (cfg : Config) (gamedata : PyPath) (fs after : Fs) (dir : PyPath) (wrapper : Content) :
    Prop where
  read : (fs (source host cfg.proxy)).read = some wrapper
  elf : isElf32 (.file (some wrapper)) = true
  deploys : Deploys fs after dir wrapper
  found : ((libDirs cfg gamedata).find? fun d => holds after d [gameLib, realLibName]) = some dir

theorem isElf32_read (elf : isElf32 node = true) :
    ∃ content, node.read = some content ∧ isElf32 (.file (some content)) = true ∧ content ≠ [] := by
  rw [isElf32] at elf
  split at elf
  · rename_i content read
    refine ⟨content, read, elf, ?_⟩
    rintro rfl
    simp at elf
  · cases elf

theorem prepare_settled (settled : Settled host cfg gamedata) (enabled : cfg.proxy.enabled = true)
    (ran : prepare host fs cfg = some (preflight, after, cfg')) : cfg' = cfg ∧ (preflight.ok = true →
      ∃ dir wrapper, Placed host cfg gamedata fs after dir wrapper) := by
  obtain ⟨⟨answer, between⟩, asked, rest⟩ := Option.bind_eq_some_iff.mp ran
  obtain ⟨rfl, ready⟩ := proxyPreflight_settled settled enabled asked
  dsimp only at rest
  split at rest
  · rename_i positive
    obtain ⟨elf, dir, found⟩ := ready positive
    obtain ⟨wrapper, read, elf, filled⟩ := isElf32_read elf
    simp only [ensureProxy, enabled, not_true, if_false, settled.dir, found] at rest
    obtain ⟨⟨placed, _, _⟩, ensured, same⟩ := Option.bind_eq_some_iff.mp rest
    obtain ⟨placed, deployed, same'⟩ := Option.map_eq_some_iff.mp ensured
    cases same'
    cases same
    have held := List.find?_some found
    have deploys := deploy_deploys held deployed read filled
    exact ⟨rfl, fun _ => ⟨dir, wrapper, read, elf, deploys, deploys.found _ found⟩⟩
  · rename_i negative
    cases rest
    exact ⟨rfl, fun positive => absurd positive negative⟩

theorem buildEnv_settled (settled : Settled host cfg gamedata) (fs : Fs) : (buildEnv host fs cfg).2 = cfg := by
  simp only [buildEnv, settled.dir]
  split
  · rfl
  · rw [settled.found]

theorem setIf_other (env : Dotenv.Environ) (value : Str) (other : k ≠ key) :
    (setIf condition key value env).get? k = env.get? k := by
  rw [setIf]
  split
  · exact PyDict.get?_set_other _ _ other
  · rfl

/-- The engine is told of the original next to the wrapper, unless the instance names another. -/
theorem buildEnv_real (settled : Settled host cfg gamedata) (enabled : cfg.proxy.enabled = true)
    (found : ((libDirs cfg gamedata).find? fun d => holds fs d [gameLib, realLibName]) = some dir) :
    (buildEnv host fs cfg).1.get? (str "JAPLUS_REAL") =
      some (if cfg.proxy.realLib = [] then (dir.join realLibName).toStr else cfg.proxy.realLib) := by
  simp only [buildEnv, settled.dir, found]
  rw [setIf_other _ _ (by decide), setIf_other _ _ (by decide), setIf, if_pos enabled, PyDict.get?_set_self, ite_not]

/-! ### The engine -/

/-- What start_engine makes of a configuration. -/
structure Starts (host : Host) (fs : Fs) (gamedata : PyPath) (cfg after : Config) (started_ : Started) : Prop where
  settled : Settled host after gamedata
  named : setting after.server (str "engine") ≠ []
  kept : setting cfg.server (str "engine") ≠ [] → after = cfg
  proxy : after.proxy = cfg.proxy
  mod : fsGame after = fsGame cfg
  started_eq : ∃ port, after.server.get? (str "port") = some port ∧ started_ =
    started host gamedata (gamedata.join (.parse (fsGame after))) after port (buildEnv host fs after).1

theorem findEngine_settled (settled : Settled host cfg gamedata) (ran : findEngine host fs cfg = some (engine, after)) :
    after = cfg ∧ engine ≠ [] := by
  obtain ⟨full, _, ran⟩ := Option.bind_eq_some_iff.mp ran
  cases full with
  | some full =>
    cases ran
    exact ⟨rfl, toStr_ne_nil full⟩
  | none =>
    simp only [settled.found] at ran
    obtain ⟨there, _, ran⟩ := Option.bind_eq_some_iff.mp ran
    cases ran
    refine ⟨rfl, ?_⟩
    split
    · exact toStr_ne_nil _
    · decide

theorem chooseEngine_settled (settled : Settled host cfg gamedata) (ran : chooseEngine host fs cfg = some after) :
    Settled host after gamedata ∧ setting after.server (str "engine") ≠ [] ∧
      (setting cfg.server (str "engine") ≠ [] → after = cfg) ∧ after.proxy = cfg.proxy ∧ fsGame after = fsGame cfg := by
  rw [chooseEngine] at ran
  split at ran
  · rename_i unnamed
    obtain ⟨⟨engine, between⟩, found, rfl⟩ := Option.map_eq_some_iff.mp ran
    obtain ⟨rfl, filled⟩ := findEngine_settled settled found
    refine ⟨?_, by rwa [setting_setText], absurd unnamed, rfl, ?_⟩
    · rw [Settled, configured, setting_setText_other _ _ (by decide)]
      exact settled
    · rw [fsGame, setting_setText_other _ _ (by decide), fsGame]
  · rename_i named
    cases ran
    exact ⟨settled, named, fun _ => rfl, rfl, rfl⟩

theorem startEngine_settled (settled : Settled host cfg gamedata)
    (ran : startEngine host fs cfg = some (started_, after)) :
    Starts host fs gamedata cfg after started_ := by
  obtain ⟨chosen, choice, ran⟩ := Option.bind_eq_some_iff.mp ran
  obtain ⟨settled, named, kept, proxy, same⟩ := chooseEngine_settled settled choice
  obtain ⟨port, known, ran⟩ := Option.bind_eq_some_iff.mp ran
  simp only [settled.found, settled.moddir, Option.bind_eq_bind, Option.bind_some, Option.pure_def] at ran
  obtain ⟨rfl, rfl⟩ := Prod.mk.inj (Option.some.inj ran)
  rw [buildEnv_settled settled]
  exact ⟨settled, named, kept, proxy, same, port, known, rfl⟩

/-- An engine whose game is the wrapper, which is told where the original is. Its arguments
say where the game is and which directory is searched first; screen hands them to a shell. -/
structure Serves (host : Host) (cfg : Config) (gamedata : PyPath) (fs after : Fs) (started : Started) (dir : PyPath)
    (wrapper : Content) : Prop where
  placed : Placed host cfg gamedata fs after dir wrapper
  chosen : gameLibDir host after cfg = (some dir, cfg)
  engine : started.launch.engine = setting cfg.server (str "engine")
  homepath : started.launch.gamedata = gamedata.toStr
  fsGame : started.launch.fsGame = fsGame cfg
  command : started.command =
    if host.screen then screenCmd started.launch cfg.name else engineCmd started.launch cfg.name
  told : [str "+set", str "fs_homepath", gamedata.toStr, str "+set", str "fs_game", Start.fsGame cfg] <:+:
    engineCmd started.launch cfg.name
  cwd : started.cwd = gamedata.toStr
  real : started.env.get? (str "JAPLUS_REAL") =
    some (if cfg.proxy.realLib = [] then (dir.join realLibName).toStr else cfg.proxy.realLib)

theorem engineCmd_told (l : Launch) (name : Str) :
    [str "+set", str "fs_homepath", l.gamedata, str "+set", str "fs_game", l.fsGame] <:+: engineCmd l name :=
  ⟨(engineCmd l name).take 7, [str "+exec", serverCfg name], rfl⟩

theorem Starts.serves (starts : Starts host after gamedata cfg cfg' started_) (enabled : cfg.proxy.enabled = true)
    (placed : Placed host cfg gamedata fs after dir wrapper) :
    Serves host cfg' gamedata fs after started_ dir wrapper := by
  obtain ⟨port, _, rfl⟩ := starts.started_eq
  obtain ⟨read, elf, deploys, found⟩ := placed
  have dirs : libDirs cfg' gamedata = libDirs cfg gamedata := by rw [libDirs, libDirs, starts.mod]
  rw [← starts.proxy] at read enabled
  rw [← dirs] at found
  have chosen : gameLibDir host after cfg' = (some dir, cfg') := by rw [starts.settled.dir, found]
  exact ⟨⟨read, elf, deploys, found⟩, chosen, rfl, rfl, rfl, rfl,
    engineCmd_told (started host gamedata _ cfg' port _).launch cfg'.name, rfl, buildEnv_real starts.settled enabled found⟩

theorem launchEngine_launched (ran : launchEngine host fs cfg = .launched after started_ cfg') :
    after = fs ∧ startEngine host fs cfg = some (started_, cfg') := by
  rw [launchEngine] at ran
  split at ran
  · cases ran
  · rename_i made
    cases ran
    exact ⟨rfl, made⟩

/-- What cmd_start does before it launches. -/
theorem cmdStart_launched (ran : cmdStart host found fs running cfg = .launched after started_ cfg') :
    ∃ gamedata known, Settled host known gamedata ∧ Keeps cfg known ∧ Detected host found cfg gamedata ∧
      ∃ preflight between, prepare host fs known = some (preflight, after, between) ∧
        (between.proxy.enabled = true → preflight.ok = true) ∧
          startEngine host after between = some (started_, cfg') := by
  rw [cmdStart] at ran
  split at ran
  · cases ran
  · rename_i gamedata known looked
    obtain ⟨settled, keeps, detected⟩ := jaGamedata_settles looked
    split at ran
    · cases ran
    · cases ran
    · split at ran
      · cases ran
      · split at ran
        · cases ran
        · rename_i preflight placed between prepared
          split at ran
          · cases ran
          · rename_i allowed
            obtain ⟨rfl, made⟩ := launchEngine_launched ran
            have positive (enabled : between.proxy.enabled = true) : preflight.ok = true := by
              by_contra negative
              exact allowed ⟨negative, enabled⟩
            exact ⟨gamedata, known, settled, keeps, detected, preflight, between, prepared, positive, made⟩

/-- cmd_start launches with the proxy only where it has put the wrapper in the place of the
game that the engine loads, and the engine is told of the original next to it. -/
theorem cmdStart_serves (ran : cmdStart host found fs running cfg = .launched after started_ cfg')
    (enabled : cfg.proxy.enabled = true) :
    ∃ gamedata dir wrapper, Detected host found cfg gamedata ∧
      Serves host cfg' gamedata fs after started_ dir wrapper := by
  obtain ⟨gamedata, known, settled, keeps, detected, preflight, between, prepared, positive, made⟩ :=
    cmdStart_launched ran
  rw [← keeps.proxy] at enabled
  obtain ⟨rfl, ready⟩ := prepare_settled settled enabled prepared
  obtain ⟨dir, wrapper, placed⟩ := ready (positive enabled)
  exact ⟨gamedata, dir, wrapper, detected, (startEngine_settled settled made).serves enabled placed⟩

end

def srv : Host where
  environ := .empty
  home := .parse (str "/root")
  cwd := .parse (str "/srv")
  repoProxySo := .parse (str "/opt/proxy/japlusproxy.so")
  screen := true

/-- A stock game below `/srv`, and a wrapper. -/
def stockFiles : Fs := fun path =>
  if path.toStr = str "/srv/jampgamei386.so" then .file (some [1])
  else if path.toStr = str "/opt/proxy/japlusproxy.so" then .file (some [0x7F, 0x45, 0x4C, 0x46, 1])
  else if path.toStr = str "/srv" then .dir
  else .missing

def fresh : Config := ⟨str "ffa", PyDict.empty.set (str "port") (.int 29070), {}⟩

/-- The game in the working directory makes place for the wrapper. -/
theorem cmdStart_serves_srv : ∃ after started_ cfg',
    cmdStart srv stockFiles stockFiles false fresh = .launched after started_ cfg' ∧
      ∃ gamedata dir wrapper, Detected srv stockFiles fresh gamedata ∧
        Serves srv cfg' gamedata stockFiles after started_ dir wrapper := by
  have ran : cmdStart srv stockFiles stockFiles false fresh = .launched _ _ _ := rfl
  exact ⟨_, _, _, ran, cmdStart_serves ran rfl⟩

/-! ### Restarts -/

section
variable {host : Host} {fs : Fs} {cfg : Config} {gamedata : PyPath}

theorem prepare_kept (settled : Settled host cfg gamedata)
    (ran : prepare host fs cfg = some (preflight, after, cfg')) : cfg' = cfg := by
  by_cases enabled : cfg.proxy.enabled = true
  · exact (prepare_settled settled enabled ran).1
  · have bypassed : prepare host fs cfg = some (⟨true, str "proxy disabled in config"⟩, fs, cfg) := by
      simp [prepare, proxyPreflight, ensureProxy, enabled]
    rw [bypassed] at ran
    cases ran
    rfl

theorem cmdStart_proxy (ran : cmdStart host found fs running cfg = .launched after started_ cfg') :
    cfg'.proxy = cfg.proxy := by
  obtain ⟨gamedata, known, settled, keeps, _, preflight, between, prepared, _, made⟩ := cmdStart_launched ran
  obtain rfl := prepare_kept settled prepared
  exact (startEngine_settled settled made).proxy.trans keeps.proxy

/-- An engine started again, with the files that it finds. -/
structure Again (host : Host) (gamedata : PyPath) (cfg : Config) (fs after : Fs) (started_ : Started) : Prop where
  starts : Starts host after gamedata cfg cfg started_
  serves : cfg.proxy.enabled = true → ∀ preflight known, proxyPreflight host fs cfg = some (preflight, known) →
    preflight.ok = true → ∃ dir wrapper, Serves host cfg gamedata fs after started_ dir wrapper

theorem restart_step (settled : Settled host cfg gamedata) (named : setting cfg.server (str "engine") ≠ []) (fs : Fs) :
    restart host fs cfg = .raised ∨
      ∃ after started_, restart host fs cfg = .launched after started_ cfg ∧
        Again host gamedata cfg fs after started_ := by
  cases prepared : prepare host fs cfg with
  | none => exact .inl (by rw [restart, prepared])
  | some result =>
    obtain ⟨preflight, after, between⟩ := result
    obtain rfl := prepare_kept settled prepared
    cases made : startEngine host after between with
    | none => exact .inl (by simp [restart, prepared, launchEngine, made])
    | some result =>
      obtain ⟨started_, cfg'⟩ := result
      have starts := startEngine_settled settled made
      obtain rfl := starts.kept named
      refine .inr ⟨after, started_, by simp [restart, prepared, launchEngine, made], starts, ?_⟩
      intro enabled answer known asked positive
      have same : preflight = answer := by
        obtain ⟨_, asked', rest⟩ := Option.bind_eq_some_iff.mp prepared
        rw [asked] at asked'
        cases asked'
        dsimp only at rest
        rw [if_pos positive] at rest
        obtain ⟨_, _, rest⟩ := Option.bind_eq_some_iff.mp rest
        cases rest
        rfl
      obtain ⟨dir, wrapper, placed⟩ := (prepare_settled settled enabled prepared).2 (same ▸ positive)
      exact ⟨dir, wrapper, starts.serves enabled placed⟩

theorem restarts_again (settled : Settled host cfg gamedata) (named : setting cfg.server (str "engine") ≠ [])
    (files : List Fs) : ∀ outcome ∈ restarts host cfg files, outcome = .raised ∨ ∃ fs ∈ files, ∃ after started_,
      outcome = .launched after started_ cfg ∧ Again host gamedata cfg fs after started_ := by
  induction files with
  | nil => simp [restarts]
  | cons fs files ih =>
    have step := restart_step settled named fs
    have kept : (restart host fs cfg).config cfg = cfg := by
      rcases step with raised | ⟨after, started_, launched, _⟩
      · rw [raised]; rfl
      · rw [launched]; rfl
    intro outcome member
    rw [restarts, kept] at member
    rcases List.mem_cons.mp member with rfl | later
    · rcases step with raised | ⟨after, started_, launched, again⟩
      · exact .inl raised
      · exact .inr ⟨fs, .head _, after, started_, launched, again⟩
    · rcases ih outcome later with raised | ⟨fs, inside, launched⟩
      · exact .inl raised
      · exact .inr ⟨fs, .tail _ inside, launched⟩

end

end JaplusProxy.Manager.Start
