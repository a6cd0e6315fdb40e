import JaplusProxy.Manager.SessionsProofs
import JaplusProxy.Manager.Supervise

/-! What _engine_alive tells about the engine. The pid it goes by is that of a supervisor,
which waits for _engine_alive to be False and so for its own end. -/
namespace JaplusProxy.Manager.Supervise
open PyString Machine

/-! ### Listings -/

theorem sessionName_skip (name : Str) (front rest : Str) (without : 'j' ∉ front) :
    sessionName name <:+: front ++ rest ↔ sessionName name <:+: rest := by
  induction front with
  | nil => rfl
  | cons c front ih =>
    rw [List.mem_cons, not_or] at without
    have spelt : sessionName name = 'j' :: (str "ap_" ++ name) := rfl
    have head : ¬ sessionName name <+: c :: (front ++ rest) := by
      rw [spelt, List.cons_prefix_cons]
      exact fun same => without.1 same.1
    rw [List.cons_append, List.infix_cons_iff, or_iff_right head]
    exact ih without.2

theorem screenList_shows (plain : '\t' ∉ name) (sessions : List Str) :
    sessionName name <:+: screenList sessions ↔ ∃ other ∈ sessions, sessionName name <:+: sessionName other := by
  have spelt : '\t' ∉ sessionName name := by
    intro member
    rcases List.mem_append.mp member with front | inside
    · exact absurd front (by decide)
    · exact plain inside
  induction sessions with
  | nil => simp [screenList, sessionName, str]
  | cons other sessions ih =>
    have line : screenList (other :: sessions) =
        ['\t'] ++ (sessionName other ++ '\t' :: (str "(Detached)\n" ++ screenList sessions)) := by
      simp [screenList, str]
    rw [line, sessionName_skip _ _ _ (by decide), infix_cut spelt, sessionName_skip _ _ _ (by decide),
      List.exists_mem_cons_iff]
    exact or_congr_right ih

/-! ### What is detectable -/

/-- Where _engine_alive is True, the session exists. -/
def Detectable (instances : List Str) (s : State) : Prop :=
  ∀ name ∈ instances, s.engineAlive name = true → name ∈ s.sessions

/-- A session ends after the process recorded for it, a supervisor is recorded while the
session or no longer the supervisor exists, and no new process has a pid that is recorded
for an instance without a session. -/
def Attended (instances : List Str) (s : State) : Action → Prop
  | .ends name => name ∈ s.sessions.erase name ∨ isPidAlive s.alive (s.recorded name) = false
  | .record name => ∀ spid, s.managers name = .forked spid → name ∈ s.sessions ∨ isPidAlive s.alive (some spid) = false
  | .fork _ pid | .spawns pid => ∀ name ∈ instances, s.recorded name = some pid → name ∈ s.sessions
  | _ => True

/-- No session name of an instance is part of that of another, and none has the tab that ends
it in the listing: a name that is shown is shown for its own session. -/
structure Distinct (instances : List Str) : Prop where
  plain : ∀ name ∈ instances, '\t' ∉ name
  apart : ∀ name ∈ instances, ∀ other ∈ instances, sessionName name <:+: sessionName other → name = other

def Listed (instances : List Str) (s : State) : Prop := ∀ name ∈ s.sessions, name ∈ instances

theorem engineAlive_iff (distinct : Distinct instances) (listed : Listed instances s) (member : name ∈ instances) :
    s.engineAlive name = true ↔ isPidAlive s.alive (s.recorded name) = true ∨ name ∈ s.sessions := by
  have shown : sessionName name <:+: screenList s.sessions ↔ name ∈ s.sessions := by
    rw [screenList_shows (distinct.plain name member)]
    constructor
    · rintro ⟨other, there, inside⟩
      exact distinct.apart name member other (listed other there) inside ▸ there
    · exact fun there => ⟨name, there, List.infix_rfl⟩
  rw [State.engineAlive, Manager.engineAlive, ← State.recorded]
  split
  · rename_i alive
    simp [alive]
  · rename_i dead
    simp [dead, shown]

/-- The recorded processes that exist are of instances whose sessions exist. -/
theorem detectable_iff (distinct : Distinct instances) (listed : Listed instances s) :
    Detectable instances s ↔ ∀ name ∈ instances, isPidAlive s.alive (s.recorded name) = true → name ∈ s.sessions := by
  apply forall₂_congr
  intro name member
  rw [engineAlive_iff distinct listed member]
  exact ⟨fun known alive => known (.inl alive), fun known alive => alive.elim (known) id⟩

/-! ### One step -/

theorem step_act (taken : step instances s a = some t) :
    (∀ name ∈ a.instance?, name ∈ instances) ∧ s.act a = some t := by
  rw [step] at taken
  split at taken
  · rename_i known
    exact ⟨known, taken⟩
  · cases taken

/-- What an action leaves of the processes, the sessions and the pid files. -/
inductive Leaves (s : State) : Action → List Int → List Str → PidDir → Prop where
  | same : (∀ instances, Attended instances s a) → Leaves s a s.procs s.sessions s.dir
  | fork : s.fresh pid → Leaves s (.fork name pid) (pid :: s.procs) s.sessions s.dir
  | spawns : s.fresh pid → Leaves s (.spawns pid) (pid :: s.procs) s.sessions s.dir
  | dies : Leaves s (.dies pid) (s.procs.filter (· ≠ pid)) s.sessions s.dir
  | record : s.managers name = .forked spid →
      Leaves s (.record name) s.procs s.sessions (writePid s.dir name (str "engine") spid)
  | removed : Leaves s (.quit name true) s.procs s.sessions (removePid s.dir name (str "engine"))
  | appears : Leaves s (.appears name) s.procs (name :: s.sessions) s.dir
  | ends : Leaves s (.ends name) s.procs (s.sessions.erase name) s.dir

theorem act_leaves {s : State} (taken : s.act a = some t) : Leaves s a t.procs t.sessions t.dir := by
  cases a with
  | start name =>
    simp only [State.act, State.start] at taken
    split at taken
    · rw [Option.ite_none_left_eq_some] at taken
      cases taken.2
      exact .same fun _ => trivial
    · cases taken
  | launch name =>
    simp only [State.act, State.launch] at taken
    split at taken
    · cases taken
      exact .same fun _ => trivial
    · cases taken
  | fork name spid =>
    simp only [State.act, State.fork] at taken
    split at taken
    · split at taken
      · rename_i fresh
        cases taken
        exact .fork fresh
      · cases taken
    · cases taken
  | record name =>
    simp only [State.act, State.record] at taken
    split at taken
    · rename_i forked
      cases taken
      exact .record forked
    · cases taken
  | raise name inLoop =>
    simp only [State.act, State.raise] at taken
    split at taken
    all_goals cases taken
    all_goals exact .same fun _ => trivial
  | watch name =>
    simp only [State.act, State.watch] at taken
    split at taken
    · cases taken
      split <;> exact .same fun _ => trivial
    · cases taken
  | quit name removed =>
    cases taken
    cases removed with
    | false => exact .same fun _ => trivial
    | true => exact .removed
  | look spid =>
    simp only [State.act, State.look] at taken
    split at taken
    · cases taken
      split <;> exact .same fun _ => trivial
    · cases taken
  | examine spid found =>
    simp only [State.act, State.examine] at taken
    split at taken
    · split at taken
      all_goals cases taken
      all_goals exact .same fun _ => trivial
    · cases taken
  | appears name =>
    simp only [State.act, State.appears] at taken
    split at taken
    · cases taken
      exact .appears
    · cases taken
  | fails name =>
    simp only [State.act, State.fails] at taken
    split at taken
    · cases taken
      exact .same fun _ => trivial
    · cases taken
  | ends name =>
    simp only [State.act, State.ends] at taken
    split at taken
    · cases taken
      exact .ends
    · cases taken
  | spawns pid =>
    simp only [State.act, State.spawns] at taken
    split at taken
    · rename_i fresh
      cases taken
      exact .spawns fresh
    · cases taken
  | dies pid =>
    cases taken
    exact .dies

theorem step_listed (listed : Listed instances s) (taken : step instances s a = some t) : Listed instances t := by
  obtain ⟨known, taken⟩ := step_act taken
  have leaves := act_leaves taken
  obtain ⟨procs, sessions, pending, dir, managers, supervisors⟩ := t
  cases leaves with
  | appears =>
    intro other member
    rcases List.mem_cons.mp member with rfl | there
    · exact known other rfl
    · exact listed other there
  | ends => exact fun other member => listed other (List.mem_of_mem_erase member)
  | _ => exact listed

theorem isPidAlive_cons (procs : List Int) (pid : Int) (recorded : Option Int) (positive : 0 < pid) :
    isPidAlive (fun p => p ∈ pid :: procs) recorded = true ↔
      recorded = some pid ∨ isPidAlive (fun p => p ∈ procs) recorded = true := by
  cases recorded with
  | none => simp [isPidAlive]
  | some p =>
    simp only [isPidAlive, List.mem_cons, Option.some.injEq, Bool.and_eq_true, decide_eq_true_eq]
    constructor
    · rintro ⟨above, rfl | there⟩
      · exact .inl rfl
      · exact .inr ⟨above, there⟩
    · rintro (rfl | ⟨above, there⟩)
      · exact ⟨positive, .inl rfl⟩
      · exact ⟨above, .inr there⟩

theorem isPidAlive_mono {recorded : Option Int} (weaker : ∀ pid, alive pid = true → alive' pid = true)
    (running : isPidAlive alive recorded = true) : isPidAlive alive' recorded = true := by
  cases recorded with
  | none => exact running
  | some pid =>
    rw [isPidAlive, Bool.and_eq_true] at running ⊢
    exact running.imp_right (weaker pid)

/-- Fewer processes that count as engines, and more sessions. -/
theorem Detectable.eases (distinct : Distinct instances) (listed : Listed instances s) (listed' : Listed instances t)
    (good : Detectable instances s) (more : s.sessions ⊆ t.sessions)
    (fewer : ∀ name, isPidAlive t.alive (t.recorded name) = true → isPidAlive s.alive (s.recorded name) = true) :
    Detectable instances t := by
  rw [detectable_iff distinct listed] at good
  rw [detectable_iff distinct listed']
  exact fun name member alive => more (good name member (fewer name alive))

theorem spawned_detectable_iff (distinct : Distinct instances) (listed : Listed instances s)
    (listed' : Listed instances t) (good : Detectable instances s) (fresh : s.fresh pid = true)
    (procs : t.procs = pid :: s.procs) (sessions : t.sessions = s.sessions) (dir : t.dir = s.dir) :
    Detectable instances t ↔ ∀ name ∈ instances, s.recorded name = some pid → name ∈ s.sessions := by
  have positive : 0 < pid := (of_decide_eq_true fresh).1
  rw [detectable_iff distinct listed] at good
  rw [detectable_iff distinct listed']
  apply forall₂_congr
  intro name member
  have alive : t.alive = fun p => decide (p ∈ pid :: s.procs) := by
    funext p
    rw [State.alive, procs]
  have recorded : t.recorded name = s.recorded name := by
    rw [State.recorded, dir, State.recorded]
  rw [alive, recorded, isPidAlive_cons _ _ _ positive, sessions]
  exact ⟨fun known here => known (.inl here), fun known => Or.rec known (good name member)⟩

/-- A change that only one instance sees. -/
theorem single_detectable_iff (distinct : Distinct instances) (listed : Listed instances s)
    (listed' : Listed instances t) (good : Detectable instances s) (member : name ∈ instances)
    (procs : t.procs = s.procs) (recorded : ∀ other, other ≠ name → t.recorded other = s.recorded other)
    (sessions : ∀ other, other ≠ name → other ∈ s.sessions → other ∈ t.sessions) :
    Detectable instances t ↔ name ∈ t.sessions ∨ isPidAlive s.alive (t.recorded name) = false := by
  have alive : t.alive = s.alive := by
    funext p
    rw [State.alive, procs, State.alive]
  rw [detectable_iff distinct listed] at good
  rw [detectable_iff distinct listed', alive]
  constructor
  · intro known
    by_cases running : isPidAlive s.alive (t.recorded name) = true
    · exact .inl (known name member running)
    · exact .inr (Bool.eq_false_iff.mpr running)
  · intro attended other member' running
    by_cases same : other = name
    · subst same
      exact attended.resolve_right (by simp [running])
    · rw [recorded other same] at running
      exact sessions other same (good other member' running)

/-- From a state where a death is detectable, a step leads to such a state exactly when
the engine is attended in it. -/
theorem step_detectable_iff (distinct : Distinct instances) (listed : Listed instances s)
    (good : Detectable instances s) (taken : step instances s a = some t) :
    Detectable instances t ↔ Attended instances s a := by
  have listed' := step_listed listed taken
  obtain ⟨known, taken⟩ := step_act taken
  have leaves := act_leaves taken
  generalize processes : t.procs = procs, listing : t.sessions = sessions, files : t.dir = dir at leaves
  have alive (same : procs = s.procs) : t.alive = s.alive := by
    funext pid
    rw [State.alive, processes, same, State.alive]
  have kept (name) (same : dir = s.dir) : t.recorded name = s.recorded name := by
    rw [State.recorded, files, same, State.recorded]
  cases leaves with
  | same met =>
    refine ⟨fun _ => met instances, fun _ => good.eases distinct listed listed' (listing ▸ List.Subset.refl _) ?_⟩
    intro name running
    rwa [alive rfl, kept name rfl] at running
  | fork fresh => exact spawned_detectable_iff distinct listed listed' good fresh processes listing files
  | spawns fresh => exact spawned_detectable_iff distinct listed listed' good fresh processes listing files
  | dies =>
    refine ⟨fun _ => trivial, fun _ => good.eases distinct listed listed' (listing ▸ List.Subset.refl _) ?_⟩
    intro name running
    rw [kept name rfl] at running
    refine isPidAlive_mono (fun pid there => ?_) running
    rw [State.alive, processes] at there
    exact decide_eq_true (List.mem_filter.mp (of_decide_eq_true there)).1
  | @record name spid forked =>
    have own : t.recorded name = some spid := by
      rw [State.recorded, files, readPid_writePid_self]
    have others : ∀ other, other ≠ name → t.recorded other = s.recorded other := fun other apart => by
      rw [State.recorded, files, writePid, readPid_update_other _ _ fun same => apart (pidPath_name_injective same),
        State.recorded]
    rw [single_detectable_iff distinct listed listed' good (known name rfl) processes others
      (fun other _ there => listing ▸ there), own, listing]
    constructor
    · intro attended other forked'
      cases forked.symm.trans forked'
      exact attended
    · exact fun attended => attended spid forked
  | @removed name =>
    refine ⟨fun _ => trivial, fun _ => good.eases distinct listed listed' (listing ▸ List.Subset.refl _) ?_⟩
    intro other running
    by_cases same : other = name
    · subst same
      have gone : t.recorded other = none := by
        rw [State.recorded, files, readPid, removePid, Function.update_self, Option.join_none]
      rw [gone] at running
      cases running
    · rw [alive rfl, State.recorded, files, removePid,
        readPid_update_other _ _ fun same' => same (pidPath_name_injective same')] at running
      exact running
  | @appears name =>
    refine ⟨fun _ => trivial, fun _ => good.eases distinct listed listed' (listing ▸ List.subset_cons_self ..) ?_⟩
    intro other running
    rwa [alive rfl, kept other rfl] at running
  | @ends name =>
    rw [single_detectable_iff distinct listed listed' good (known name rfl) processes (fun other _ => kept other rfl)
      (fun other apart there => listing ▸ (List.mem_erase_of_ne apart).mpr there), kept name rfl, listing]
    exact Iff.rfl

/-! ### Runs -/

/-- Alphanumeric names of which none begins with another. -/
theorem distinct_of_apart (names : List Name)
    (apart : ∀ name ∈ names, ∀ other ∈ names, name.text <+: other.text → name = other) :
    Distinct (names.map Name.text) := by
  constructor
  · intro text member tab
    obtain ⟨name, _, rfl⟩ := List.mem_map.mp member
    exact absurd (name.alnum _ tab) (by decide)
  · intro text member text' member' inside
    obtain ⟨name, there, rfl⟩ := List.mem_map.mp member
    obtain ⟨other, there', rfl⟩ := List.mem_map.mp member'
    rw [apart name there other there' ((sessionName_infix_iff name other).mp inside)]

/-- The system before any start. -/
def begin (procs : List Int) : State := { procs := procs, dir := fun _ => none }

/-- A supervisor never looks closer: it finds itself alive. -/
theorem look_self {s : State} (held : s.supervisors spid = some ⟨name, .sleeping, crashes⟩)
    (recorded : s.recorded name = some spid) (positive : 0 < spid) (there : spid ∈ s.procs) : s.look spid = some s := by
  have alive : s.engineAlive name = true := by
    rw [State.engineAlive, Manager.engineAlive, ← State.recorded, recorded]
    simp [isPidAlive, State.alive, positive, there]
  rw [State.look, held]
  simp [alive]

/-- Along a run _engine_alive always tells of the session exactly when every step attends
to the engine. -/
theorem engineAlive_detects_iff (instances : List Str) (distinct : Distinct instances) (procs : List Int)
    (actions : List Action) (ran : run (step instances) (begin procs) actions = some t) :
    Always (step instances) (Detectable instances) (begin procs) actions ↔
      Each (step instances) (Attended instances) (begin procs) actions := by
  have initial : Listed instances (begin procs) := by
    intro name member
    cases member
  have start : Detectable instances (begin procs) := by
    rw [detectable_iff distinct initial]
    intro name _ alive
    cases alive
  exact always_iff_each (fun _ _ _ => step_listed) (fun _ _ _ listed good => step_detectable_iff distinct listed good)
    ran initial start

/-! ### One instance -/

def ja : Str := str "ja"

def brought : List Action := [.start ja, .launch ja, .appears ja, .fork ja 200, .record ja]

theorem distinct_ja : Distinct [ja] := by
  constructor
  · decide
  · intro name member other member' _
    rw [List.mem_singleton.mp member, List.mem_singleton.mp member']

/-- The supervisor goes first, then the session; then the manager starts again. -/
theorem engineAlive_detects_ja : Always (step [ja]) (Detectable [ja]) (begin [1])
    (brought ++ [.dies 200, .ends ja, .watch ja]) := by
  refine (engineAlive_detects_iff [ja] distinct_ja [1] _ rfl).mpr ?_
  exact .next (by trivial) rfl <| .next (by trivial) rfl <| .next (by trivial) rfl <|
    .next (by exact fun _ member _ => member) rfl <| .next (by exact fun _ _ => .inl (.head _)) rfl <|
    .next (by trivial) rfl <| .next (by exact .inr (by decide)) rfl <| .next (by trivial) rfl trivial

/-- The engine exits and its session ends. The supervisor and the manager look, and find
it alive. -/
theorem engineAlive_misses : ¬ ∀ s, Reachable (step [ja]) (begin [1]) s → Detectable [ja] s := by
  intro detectable
  have ran : run (step [ja]) (begin [1]) (brought ++ [.ends ja, .look 200, .watch ja]) = some _ := rfl
  have known := detectable _ (reachable_of_run ran) ja (.head _) (by decide)
  exact absurd known (by decide)

end JaplusProxy.Manager.Supervise
