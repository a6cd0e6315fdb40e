import JaplusProxy.Manager.Watchdog

/-! When the watchdog gives up. Only the death of an engine that it holds a handle of, and
whose exit code it learns, is counted; without a handle each death resets the counter. -/
namespace JaplusProxy.Manager.Watchdog
open PyString Machine

/-- A death is handled with a handle whose exit code is known and is not -1. -/
def Coded (s : State) : Action → Prop
  | .death code => s.pc = .death → ∃ engine, s.engine = some engine ∧ ∃ c, (engine.poll code).returncode = some c ∧ c ≠ -1
  | _ => True

/-- The deaths counted whose restart is still to come. -/
def Pc.owed : Pc → Nat
  | .prepare | .launch => 1
  | _ => 0

structure Counted (s : State) : Prop where
  starts : s.starts + s.pc.owed ≤ s.crashes
  few : s.pc ≠ .finished → s.crashes < maxCrashes
  bounded : s.starts < maxCrashes

/-- What changes neither counter and owes no more. -/
structure Steady (s t : State) : Prop where
  starts : t.starts = s.starts
  crashes : t.crashes = s.crashes
  owed : t.pc.owed ≤ s.pc.owed

theorem Counted.steady (counted : Counted s) (steady : Steady s t) (stays : s.pc = .finished → t.pc = .finished) :
    Counted t := by
  obtain ⟨starts, crashes, owed⟩ := steady
  constructor
  · rw [starts, crashes]
    exact (Nat.add_le_add_left owed _).trans counted.starts
  · intro inside
    rw [crashes]
    exact counted.few fun outside => inside (stays outside)
  · rw [starts]
    exact counted.bounded

theorem popen_counters {s : State} (made : s.popen name plugin spawned = some (t, pid)) :
    t.starts = s.starts ∧ t.crashes = s.crashes := by
  obtain ⟨_, rfl, _⟩ | ⟨_, _, _, _, _, rfl⟩ | ⟨_, _, _, _, rfl⟩ := State.popen_inv made
  all_goals exact ⟨rfl, rfl⟩

/-- The other steps leave both counters alone. -/
theorem step_steady (config : Config) (taken : config.step s a = some t)
    (death : ∀ code, a ≠ .death code) (launch : ∀ launched, a ≠ .launch launched) : Steady s t := by
  cases a with
  | death code => exact absurd rfl (death code)
  | launch launched => exact absurd rfl (launch launched)
  | respawn spawned =>
    simp only [Config.step, State.respawn] at taken
    split at taken
    · split at taken
      · cases taken
      · obtain ⟨⟨u, pid⟩, made, rfl⟩ := Option.map_eq_some_iff.mp taken
        obtain ⟨starts, crashes⟩ := popen_counters made
        cases pid <;> exact ⟨starts, crashes, Nat.zero_le _⟩
    · cases taken
  | spawn spawned =>
    simp only [Config.step, State.spawn] at taken
    split at taken
    · rename_i first _ _ _ _ _
      split at taken
      · cases taken
      · obtain ⟨⟨u, pid⟩, made, rfl⟩ := Option.map_eq_some_iff.mp taken
        obtain ⟨starts, crashes⟩ := popen_counters made
        cases pid with
        | none => cases first <;> exact ⟨starts, crashes, Nat.zero_le _⟩
        | some pid => exact ⟨starts, crashes, Nat.zero_le _⟩
    · cases taken
  | daemonized pid =>
    cases taken
    exact ⟨rfl, rfl, le_rfl⟩
  | exits plugin pid =>
    simp only [Config.step, State.exits] at taken
    split at taken
    · cases taken
      exact ⟨rfl, rfl, le_rfl⟩
    · cases taken
  | interrupt =>
    cases taken
    exact ⟨rfl, rfl, Nat.zero_le _⟩
  | _ =>
    simp only [Config.step, State.poll, State.check, State.alive, State.schedule, State.prepare, State.confirm,
      State.verify, State.skip, State.update] at taken
    constructor <;> grind [Pc.owed]

/-- A death is counted, and the fifth ends the loop. -/
theorem death_counted (counted : Counted s) (coded : Coded s (.death code)) (taken : s.death code = some t) :
    Counted t := by
  simp only [State.death] at taken
  split at taken
  · rename_i here
    obtain ⟨engine, held, c, known, crashed⟩ := coded here
    simp only [held, known, Option.getD_some, crashed, if_false] at taken
    cases taken
    have few := counted.few (by simp [here])
    have starts : s.starts ≤ s.crashes := by simpa [here, Pc.owed] using counted.starts
    constructor
    · dsimp only
      split
      · exact starts.trans (Nat.le_succ _)
      · exact Nat.succ_le_succ starts
    · intro inside
      dsimp only at inside ⊢
      split at inside
      · exact absurd rfl inside
      · rename_i more
        exact Nat.lt_of_not_le more
    · exact counted.bounded
  · cases taken

/-- A start uses up the death that it answers. -/
theorem launch_counted {s : State} {launched : Launched} (counted : Counted s) (taken : s.launch name launched = some t) : Counted t := by
  simp only [State.launch] at taken
  split at taken
  · rename_i here
    have few := counted.few (by simp [here])
    have owed : s.starts + 1 ≤ s.crashes := by simpa [here, Pc.owed] using counted.starts
    have after : ∀ pc : Pc, pc.owed = 0 → Counted { s with starts := s.starts + 1, pc := pc } := fun pc none => by
      refine ⟨?_, fun _ => few, owed.trans_lt few⟩
      dsimp only
      rw [none]
      exact owed
    cases launched with
    | failed left =>
      cases taken
      obtain ⟨starts, few, bounded⟩ := after .head rfl
      exact ⟨starts, few, bounded⟩
    | direct pid | screen spid =>
      cases taken
      obtain ⟨starts, few, bounded⟩ := after .confirm rfl
      exact ⟨starts, few, bounded⟩
  · cases taken

theorem step_counted (config : Config) (counted : Counted s) (coded : Coded s a) (taken : config.step s a = some t) :
    Counted t := by
  cases a with
  | death code => exact death_counted counted coded taken
  | launch launched => exact launch_counted counted taken
  | _ => exact counted.steady (step_steady config taken (by simp) (by simp)) fun here => finished_stays config here taken

/-- Where each death comes with an exit code other than -1, the loop starts the engine
fewer than `maxCrashes` times, whatever raises and whatever else happens. -/
theorem watchdog_gives_up (config : Config) (engine : Option Popen) (dir : PidDir)
    (reaches : Reaches config.step Coded (config.begin engine dir) s) : s.starts < maxCrashes := by
  have initial : Counted (config.begin engine dir) := ⟨Nat.le_refl 0, fun _ => Nat.succ_pos 4, Nat.succ_pos 4⟩
  exact (reaches.invariant (fun _ _ _ => step_counted config) initial).bounded

/-! ### Without a handle -/

theorem alive_all (config : Config) {s : State} {engineAlive : Bool} (here : s.pc = .plugins engineAlive rest) :
    Reachable config.step s { s with pc := .plugins engineAlive [] } := by
  induction rest generalizing s with
  | nil =>
    rw [← here]
    exact .refl
  | cons entry rest ih =>
    have one : config.step s .alive = some { s with pc := .plugins engineAlive rest } := by
      simp [Config.step, State.alive, here]
    exact .next trivial one (ih rfl)

/-- A pass that finds the engine dead while all plugins run, and whose start raises. -/
theorem failing_pass (config : Config) {s : State} (held : s.engine = none) (here : s.pc = .head) :
    ∃ t, Reachable config.step s t ∧ t.engine = none ∧ t.pc = .head ∧ t.starts = s.starts + 1 := by
  have first : run config.step s [.poll false, .check false] =
      some { s with pc := .plugins false s.standalone.items } := by
    simp [run, Config.step, State.poll, State.check, here]
  have plugins := alive_all config (s := { s with pc := .plugins false s.standalone.items }) rfl
  let dir := Function.update s.dir (pidPath config.name (str "engine")) none
  have last : run config.step { s with pc := .plugins false [] }
      [.schedule false false, .death none, .prepare false, .launch (.failed none)] =
        some { s with crashes := 0, starts := s.starts + 1, dir := dir, pc := .head } := by
    simp [run, Config.step, State.schedule, State.death, State.prepare, State.launch, held, dir]
  exact ⟨_, (reachable_of_run first).trans (plugins.trans (reachable_of_run last)), held, rfl, rfl⟩

/-- Without a handle there is no bound, whatever the counter says. -/
theorem starts_unbounded (config : Config) {s : State} (held : s.engine = none) (here : s.pc = .head) (more : Nat) :
    ∃ t, Reachable config.step s t ∧ t.starts = s.starts + more := by
  induction more generalizing s with
  | zero => exact ⟨s, .refl, rfl⟩
  | succ more ih =>
    obtain ⟨t, pass, held, here, once⟩ := failing_pass config held here
    obtain ⟨u, rest, again⟩ := ih held here
    exact ⟨u, pass.trans rest, by rw [again, once, Nat.add_assoc, Nat.add_comm 1]⟩

def plain : Config := { name := str "ja", plugins := .empty }

def plainDir : PidDir := fun _ => none

/-- A crash with exit code 1, and the restart. -/
theorem watchdog_gives_up_coded : ∃ s,
    run plain.step (plain.begin (some { pid := 70 }) plainDir) [.update, .poll false, .check false,
      .schedule false false, .death (some 1), .prepare false, .launch (.direct 71)] = some s ∧
    s.starts < maxCrashes := by
  refine ⟨_, rfl, watchdog_gives_up plain (some { pid := 70 }) plainDir ?_⟩
  exact .next (a := .update) (by trivial) rfl <| .next (a := .poll false) (by trivial) rfl <|
    .next (a := .check false) (by trivial) rfl <| .next (a := .schedule false false) (by trivial) rfl <|
    .next (a := .death (some 1)) (by exact fun _ => ⟨_, rfl, 1, rfl, by decide⟩) rfl <|
    .next (a := .prepare false) (by trivial) rfl <| .next (a := .launch (.direct 71)) (by trivial) rfl .refl

/-- In screen mode the engine stays dead and its start raises, five times over. -/
theorem watchdog_keeps_starting :
    ¬ ∀ s, Reachable plain.step (plain.begin none plainDir) s → s.starts < maxCrashes := by
  intro bounded
  obtain ⟨s, reaches, starts⟩ := starts_unbounded plain (s := { plain.begin none plainDir with pc := .head }) rfl rfl 5
  have spawned : run plain.step (plain.begin none plainDir) [.update] =
      some { plain.begin none plainDir with pc := .head } := rfl
  have few := bounded s ((reachable_of_run spawned).trans reaches)
  rw [starts] at few
  exact absurd few (by decide)

end JaplusProxy.Manager.Watchdog
