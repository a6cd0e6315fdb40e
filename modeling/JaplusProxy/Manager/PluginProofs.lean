import JaplusProxy.Manager.Watchdog

/-! Which plugin processes the watchdog knows. A start of the engine starts every plugin
again, and the process that it had is then in no table. -/
namespace JaplusProxy.Manager.Watchdog
open PyString Machine

/-- The process of a plugin that runs is the only one, and it is in the standalone table
and in its pid file. -/
structure Tracked (name : Str) (s : State) (plugin : Str) : Prop where
  unique : ∀ pid other, (plugin, pid) ∈ s.running → (plugin, other) ∈ s.running → pid = other
  held : ∀ pid, (plugin, pid) ∈ s.running → s.standalone.get? plugin = some pid
  recorded : ∀ pid, (plugin, pid) ∈ s.running → readPid s.dir name plugin = some pid

/-- start_standalone_plugins starts only what does not run and, inside the loop, loses no
process to an exception; no write_pid of a plugin fails; no plugin that runs bears the
label of the engine or of the manager when these are recorded. -/
def Alone (s : State) : Action → Prop
  | .spawn spawned => ∀ first plugin settings rest procs, s.pc = .starting first ((plugin, settings) :: rest) procs →
      match spawned with
      | .failed => first ∨ ∀ entry ∈ procs.items, entry ∉ s.running
      | .unrecorded .. => first
      | .recorded _ => ∀ pid, (plugin, pid) ∉ s.running
  | .respawn (.unrecorded ..) => False
  | .launch _ => ∀ pid, (str "engine", pid) ∉ s.running
  | .daemonized _ => ∀ pid, (str "manager", pid) ∉ s.running
  | _ => True

/-! ### The invariant -/

/-- What is started so far and not yet in the table. -/
def Pc.procs : Pc → PyDict Str Int
  | .starting _ _ procs => procs
  | _ => .empty

/-- The table, with what is about to be put in it. -/
def State.current (s : State) (plugin : Str) : Option Int := (s.pc.procs.get? plugin).or (s.standalone.get? plugin)

structure Kept (name : Str) (s : State) : Prop where
  recorded : ∀ plugin pid, (plugin, pid) ∈ s.running → readPid s.dir name plugin = some pid
  current : ∀ plugin pid, (plugin, pid) ∈ s.running → s.current plugin = some pid
  /-- The entries left to look at are those of the table. -/
  looked : ∀ engineAlive rest, s.pc = .plugins engineAlive rest →
    (rest.map Prod.fst).Nodup ∧ ∀ entry ∈ rest, s.standalone.get? entry.1 = some entry.2

theorem Kept.tracked (kept : Kept name s) (here : s.pc = .head) (plugin : Str) : Tracked name s plugin := by
  have held : ∀ pid, (plugin, pid) ∈ s.running → s.standalone.get? plugin = some pid := fun pid runs => by
    simpa [State.current, here, Pc.procs] using kept.current plugin pid runs
  constructor
  · intro pid other left right
    exact Option.some.inj ((held pid left).symm.trans (held other right))
  · exact held
  · exact kept.recorded plugin

/-- Another place in the loop, with the same processes, table and files. -/
theorem Kept.moves (kept : Kept name s) (running : t.running = s.running) (dir : t.dir = s.dir)
    (standalone : t.standalone = s.standalone) (procs : t.pc.procs = s.pc.procs)
    (looked : ∀ engineAlive rest, t.pc = .plugins engineAlive rest →
      (rest.map Prod.fst).Nodup ∧ ∀ entry ∈ rest, s.standalone.get? entry.1 = some entry.2) : Kept name t := by
  constructor
  · rw [running, dir]
    exact kept.recorded
  · simp only [State.current, running, standalone, procs]
    exact kept.current
  · rw [standalone]
    exact looked

/-- A label that no plugin process runs under. -/
theorem Kept.writes (kept : Kept name s) (absent : ∀ pid, (label, pid) ∉ s.running)
    (left : Option (Option Int)) : Kept name { s with dir := Function.update s.dir (pidPath name label) left } := by
  refine ⟨fun plugin pid runs => ?_, kept.current, kept.looked⟩
  have apart : pidPath name plugin ≠ pidPath name label := fun same =>
    absent pid (pidPath_injective same ▸ runs)
  rw [readPid_update_other _ _ apart]
  exact kept.recorded plugin pid runs

/-- A plugin that does not run is started and recorded. -/
theorem Kept.starts (kept : Kept name s) (absent : ∀ pid, (plugin, pid) ∉ s.running)
    (running : t.running = (plugin, new) :: s.running) (dir : t.dir = writePid s.dir name plugin new)
    (current : ∀ other, t.current other = if other = plugin then some new else s.current other)
    (looked : ∀ engineAlive rest, t.pc = .plugins engineAlive rest →
      (rest.map Prod.fst).Nodup ∧ ∀ entry ∈ rest, t.standalone.get? entry.1 = some entry.2) : Kept name t := by
  refine ⟨fun other pid runs => ?_, fun other pid runs => ?_, looked⟩
  · rw [running] at runs
    rw [dir]
    rcases List.mem_cons.mp runs with here | runs
    · cases here
      exact readPid_writePid_self ..
    · have apart : pidPath name other ≠ pidPath name plugin := fun same => absent pid (pidPath_injective same ▸ runs)
      rw [writePid, readPid_update_other _ _ apart]
      exact kept.recorded other pid runs
  · rw [running] at runs
    rw [current]
    rcases List.mem_cons.mp runs with here | runs
    · cases here
      exact if_pos rfl
    · have apart : other ≠ plugin := fun same => absent pid (same ▸ runs)
      rw [if_neg apart]
      exact kept.current other pid runs

/-! ### One step -/

theorem respawn_kept {s : State} (kept : Kept name s) (alone : Alone s (.respawn spawned))
    (taken : s.respawn name spawned = some t) : Kept name t := by
  simp only [State.respawn] at taken
  split at taken
  · rename_i engineAlive plugin pid rest here
    split at taken
    · cases taken
    · rename_i dead
      obtain ⟨once, held⟩ := kept.looked engineAlive _ here
      rw [List.map_cons, List.nodup_cons] at once
      -- the entry found dead is all that the plugin had
      have absent : ∀ other, (plugin, other) ∉ s.running := fun other runs => by
        have current := kept.current plugin other runs
        simp only [State.current, here, Pc.procs, PyDict.get?_empty, Option.none_or, held _ (.head _)] at current
        cases current
        exact dead (List.mem_map.mpr ⟨_, runs, rfl⟩)
      obtain ⟨⟨u, outcome⟩, made, rfl⟩ := Option.map_eq_some_iff.mp taken
      obtain ⟨rfl, rfl, rfl⟩ | ⟨new, left, rfl, _⟩ | ⟨new, rfl, _, rfl, rfl⟩ := State.popen_inv made
      · exact kept.moves rfl rfl rfl (by simp [here, Pc.procs]) (by simp)
      · exact alone.elim
      · apply kept.starts absent rfl rfl
        · intro other
          simp [State.current, here, Pc.procs, PyDict.get?_set]
        · intro _ _ same
          cases same
          refine ⟨once.2, fun entry member => ?_⟩
          have apart : entry.1 ≠ plugin := fun same => once.1 (List.mem_map.mpr ⟨entry, member, same⟩)
          rw [PyDict.get?_set_other _ _ apart]
          exact held entry (.tail _ member)
  · cases taken

/-- What is raised outside the loop ends it. -/
theorem spawn_kept {s : State} (kept : Kept name s) (alone : Alone s (.spawn spawned))
    (taken : s.spawn name spawned = some t) (inside : t.pc ≠ .finished) : Kept name t := by
  simp only [State.spawn] at taken
  split at taken
  · rename_i first plugin settings rest procs here
    split at taken
    · cases taken
    · obtain ⟨⟨u, outcome⟩, made, rfl⟩ := Option.map_eq_some_iff.mp taken
      have alone := alone first plugin settings rest procs here
      obtain ⟨rfl, rfl, rfl⟩ | ⟨new, left, rfl, _, rfl, rfl⟩ | ⟨new, rfl, _, rfl, rfl⟩ := State.popen_inv made
      · rcases alone with rfl | lost
        · exact absurd rfl inside
        · refine ⟨kept.recorded, fun other pid runs => ?_, by cases first <;> simp⟩
          have current := kept.current other pid runs
          simp only [State.current, here, Pc.procs] at current
          -- a process that runs is none of those that are lost
          have old : procs.get? other = none := by
            cases found : procs.get? other with
            | none => rfl
            | some value =>
              rw [found] at current
              cases current
              exact absurd runs (lost _ (PyDict.get?_eq_some.mp found))
          cases first <;> simpa [State.current, Pc.procs, old] using current
      · cases alone
        exact absurd rfl inside
      · apply kept.starts alone rfl rfl
        · intro other
          simp only [State.current, here, Pc.procs, PyDict.get?_set]
          split <;> simp
        · simp
  · cases taken

theorem update_kept {s : State} (kept : Kept name s) (taken : s.update = some t) : Kept name t := by
  simp only [State.update] at taken
  split at taken
  · rename_i first procs here
    cases taken
    refine ⟨kept.recorded, fun plugin pid runs => ?_, by simp⟩
    have current := kept.current plugin pid runs
    simpa [State.current, here, Pc.procs, PyDict.get?_update] using current
  · cases taken

theorem launch_kept {s : State} {launched : Launched} (kept : Kept name s) (alone : Alone s (.launch launched))
    (taken : s.launch name launched = some t) : Kept name t := by
  simp only [State.launch] at taken
  split at taken
  · rename_i here
    have written (left) : Kept name { s with dir := Function.update s.dir (pidPath name (str "engine")) left } :=
      kept.writes alone left
    cases launched with
    | failed left =>
      cases taken
      exact (written left).moves rfl rfl rfl (by simp [here, Pc.procs]) (by simp)
    | direct pid | screen pid =>
      cases taken
      exact (written (some (some pid))).moves rfl rfl rfl (by simp [here, Pc.procs]) (by simp)
  · cases taken

theorem exits_kept {s : State} (kept : Kept name s) (taken : s.exits plugin pid = some t) : Kept name t := by
  simp only [State.exits] at taken
  split at taken
  · cases taken
    exact ⟨fun other pid runs => kept.recorded other pid (List.mem_of_mem_erase runs),
      fun other pid runs => kept.current other pid (List.mem_of_mem_erase runs), kept.looked⟩
  · cases taken

theorem check_kept {s : State} (kept : Kept name s) (taken : s.check alive = some t) : Kept name t := by
  simp only [State.check] at taken
  split at taken
  · rename_i here
    cases taken
    refine kept.moves rfl rfl rfl (by simp [here, Pc.procs]) fun engineAlive rest same => ?_
    cases same
    exact ⟨s.standalone.once, fun entry member => PyDict.get?_eq_some.mpr member⟩
  · cases taken

theorem alive_kept {s : State} (kept : Kept name s) (taken : s.alive = some t) : Kept name t := by
  simp only [State.alive] at taken
  split at taken
  · rename_i engineAlive entry rest here
    cases taken
    obtain ⟨once, held⟩ := kept.looked engineAlive _ here
    refine kept.moves rfl rfl rfl (by simp [here, Pc.procs]) fun _ _ same => ?_
    cases same
    exact ⟨(List.nodup_cons.mp once).2, fun entry member => held entry (.tail _ member)⟩
  · cases taken

/-- The steps that only move on. -/
structure Moved (s t : State) : Prop where
  running : t.running = s.running
  dir : t.dir = s.dir
  standalone : t.standalone = s.standalone
  procs : t.pc.procs = s.pc.procs
  elsewhere : ∀ engineAlive rest, t.pc ≠ .plugins engineAlive rest

theorem Kept.moved (kept : Kept name s) (moved : Moved s t) : Kept name t :=
  kept.moves moved.running moved.dir moved.standalone moved.procs fun engineAlive rest same =>
    absurd same (moved.elsewhere engineAlive rest)

theorem schedule_moved {s : State} (taken : s.schedule due raises = some t) : Moved s t := by
  simp only [State.schedule] at taken
  split at taken
  · rename_i here
    cases taken
    exact ⟨rfl, rfl, rfl, by simp [here, Pc.procs], by simp⟩
  · rename_i here
    split at taken
    all_goals cases taken
    · cases raises <;> exact ⟨rfl, rfl, rfl, by simp [here, Pc.procs], by simp⟩
    · exact ⟨rfl, rfl, rfl, by simp [here, Pc.procs], by simp⟩
  · cases taken

theorem death_moved {s : State} (taken : s.death code = some t) : Moved s t := by
  simp only [State.death] at taken
  split at taken
  · rename_i here
    split at taken
    · cases taken
      exact ⟨rfl, rfl, rfl, by simp [here, Pc.procs], by simp⟩
    · split at taken
      all_goals cases taken
      · exact ⟨rfl, rfl, rfl, by simp [here, Pc.procs], by simp⟩
      · split <;> exact ⟨rfl, rfl, rfl, by simp [here, Pc.procs], by simp⟩
  · cases taken

theorem skip_moved {s : State} (taken : s.skip = some t) : Moved s t := by
  simp only [State.skip] at taken
  split at taken
  · rename_i here
    cases taken
    exact ⟨rfl, rfl, rfl, by simp [here, Pc.procs], by simp⟩
  · cases taken

/-- The steps with one way on, and another where something is raised. -/
theorem passes_moved {s : State} (here : s.pc = pc) (old : pc.procs = .empty) (next : Pc)
    (other : Bool) (still : next.procs = .empty) (elsewhere : ∀ engineAlive rest, next ≠ .plugins engineAlive rest) :
    Moved s { s with pc := if other then .head else next } := by
  cases other with
  | false => exact ⟨rfl, rfl, rfl, by rw [here, old]; exact still, elsewhere⟩
  | true => exact ⟨rfl, rfl, rfl, by rw [here, old]; rfl, by simp⟩

theorem step_kept (config : Config) (kept : Kept config.name s) (alone : Alone s a)
    (taken : config.step s a = some t) (inside : t.pc ≠ .finished) : Kept config.name t := by
  cases a with
  | check alive => exact check_kept kept taken
  | alive => exact alive_kept kept taken
  | respawn spawned => exact respawn_kept kept alone taken
  | launch launched => exact launch_kept kept alone taken
  | spawn spawned => exact spawn_kept kept alone taken inside
  | update => exact update_kept kept taken
  | exits plugin pid => exact exits_kept kept taken
  | schedule due raises => exact kept.moved (schedule_moved taken)
  | death code => exact kept.moved (death_moved taken)
  | skip => exact kept.moved (skip_moved taken)
  | daemonized pid =>
    cases taken
    exact kept.writes alone _
  | interrupt =>
    cases taken
    exact absurd rfl inside
  | poll raises =>
    simp only [Config.step, State.poll] at taken
    split at taken
    · rename_i here
      cases taken
      exact kept.moved (passes_moved here rfl .check raises rfl (by simp))
    · cases taken
  | prepare raises =>
    simp only [Config.step, State.prepare] at taken
    split at taken
    · rename_i here
      cases taken
      exact kept.moved (passes_moved here rfl .launch raises rfl (by simp))
    · cases taken
  | confirm alive =>
    simp only [Config.step, State.confirm] at taken
    split at taken
    · rename_i here
      cases taken
      have moved := passes_moved here rfl .verify (decide (s.engine.isNone ∧ alive)) rfl (by simp)
      simp only [decide_eq_true_eq] at moved
      exact kept.moved moved
    · cases taken
  | verify raises =>
    simp only [Config.step, State.verify] at taken
    split at taken
    · rename_i here
      cases taken
      exact kept.moved (passes_moved here rfl (.starting false config.plugins.items .empty) raises rfl (by simp))
    · cases taken

/-- The invariant, while the loop is not left. -/
def Inside (name : Str) (s : State) : Prop := s.pc ≠ .finished → Kept name s

/-- At every loop head each plugin has at most the process that the table and the pid file
know, in every run in which start_standalone_plugins starts only what does not run. -/
theorem plugins_tracked (config : Config) (engine : Option Popen) (dir : PidDir)
    (reaches : Reaches config.step Alone (config.begin engine dir) s) (here : s.pc = .head) (plugin : Str) :
    Tracked config.name s plugin := by
  have initial : Inside config.name (config.begin engine dir) := by
    intro _
    exact ⟨by simp [Config.begin], by simp [Config.begin], by simp [Config.begin]⟩
  have kept : Inside config.name s := by
    refine reaches.invariant (fun s a t kept alone taken inside => ?_) initial
    exact step_kept config (kept fun outside => inside (finished_stays config outside taken)) alone taken inside
  exact (kept (by simp [here])).tracked here plugin

/-! ### One plugin -/

def stats : Str := str "stats"

def withStats : Config := { name := str "ja", plugins := ⟨[(stats, .bool true)], List.nodup_singleton _⟩ }

def noFiles : PidDir := fun _ => none

/-- The plugin dies and is started again. -/
theorem plugins_tracked_stats : ∃ s,
    run withStats.step (withStats.begin none noFiles) [.spawn (.recorded 60), .update, .exits stats 60, .poll false,
      .check true, .respawn (.recorded 61), .schedule false false] = some s ∧
    s.running = [(stats, 61)] ∧ Tracked withStats.name s stats := by
  refine ⟨_, rfl, rfl, plugins_tracked withStats none noFiles ?_ rfl stats⟩
  exact .next (a := .spawn (.recorded 60)) (by rintro _ _ _ _ _ ⟨⟩; simp [Config.begin]) rfl <|
    .next (a := .update) (by trivial) rfl <| .next (a := .exits stats 60) (by trivial) rfl <|
    .next (a := .poll false) (by trivial) rfl <| .next (a := .check true) (by trivial) rfl <|
    .next (a := .respawn (.recorded 61)) (by trivial) rfl <| .next (a := .schedule false false) (by trivial) rfl .refl

/-- The engine dies and is started again. The plugin did not die, and runs twice. -/
theorem plugins_duplicated : ¬ ∀ s, Reachable withStats.step (withStats.begin (some { pid := 50 }) noFiles) s →
    s.pc = .head → ∀ plugin, Tracked withStats.name s plugin := by
  intro tracked
  have ran : run withStats.step (withStats.begin (some { pid := 50 }) noFiles) [.spawn (.recorded 60), .update,
      .poll false, .check false, .alive, .schedule false false, .death (some 0), .prepare false, .launch (.direct 70),
      .confirm false, .verify false, .spawn (.recorded 80), .update] = some _ := rfl
  have same := (tracked _ (reachable_of_run ran) rfl stats).unique 60 80 (by decide) (by decide)
  exact absurd same (by decide)

end JaplusProxy.Manager.Watchdog
