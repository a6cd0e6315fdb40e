import JaplusProxy.Plugins.PluginManager

/-! What a native plugin goes through between start_all and finish_all: every round that is
begun, less the events that a plugin before it kept and the rounds that one cut off. An
event reaches it as the plugins before it left it. -/
namespace JaplusProxy.Plugins
open PyString
open Manager.Watchdog (Settings)

variable {σ ω ε : Type} {p : Plugin σ ω ε} {ps qs : List (Plugin σ ω ε)} {c : Callback ε} {w : ω}

/-- A callback without the manager around it. -/
def Plugin.after (p : Plugin σ ω ε) (c : Callback ε) (w : ω) : Plugin σ ω ε :=
  { p with state := (p.call c w).1.state }

/-- By itself, through these callbacks. -/
def Plugin.alone (p : Plugin σ ω ε) (calls : List (Callback ε × ω)) : Plugin σ ω ε :=
  calls.foldl (fun p r => p.after r.1 r.2) p

def Callback.isEvent : Callback ε → Bool
  | .event _ => true
  | _ => false

/-- A callback less what its event holds. -/
def Callback.kind : Callback ε → Callback Unit
  | .start => .start
  | .event _ => .event ()
  | .loop => .loop
  | .finish => .finish

/-- Rounds one after the other, whatever escapes from them. -/
def play (plugins : List (Plugin σ ω ε)) (rounds : List (Callback ε × ω)) : List (Plugin σ ω ε) :=
  rounds.foldl (fun plugins r => (round plugins r.1 r.2).plugins) plugins

/-- The callbacks that reach a plugin behind these. -/
def passed (ps : List (Plugin σ ω ε)) : List (Callback ε × ω) → List (Callback ε × ω)
  | [] => []
  | (c, w) :: rest =>
    let front := round ps c w
    (if front.halted.isSome then [] else [(front.handed, w)]) ++ passed front.plugins rest

namespace PluginClass

/-- No exception leaves its callbacks, except for an `Exception`. -/
def Contained (cls : PluginClass σ ω ε) : Prop :=
  ∀ (c : Callback ε) (w : ω) (s : σ), (Plugin.call ⟨cls, s⟩ c w).1.ending ≠ .escaped

/-- Its events leave it as they came. -/
def Preserves (cls : PluginClass σ ω ε) : Prop := ∀ (e : ε) (w : ω) (s : σ), (cls.onEvent e w s).2 = e

end PluginClass

/-! ### One round -/

/-- Whether the round ends at a plugin. -/
def haltOf (c : Callback ε) : Ending → Option Halt
  | .escaped => some .escaped
  | .returned truth => if c.isEvent && truth then some .kept else none
  | .raised => none

theorem call_kind (p : Plugin σ ω ε) (c : Callback ε) (w : ω) : (p.call c w).2.kind = c.kind := by
  cases c <;> rfl

/-- All rounds go from plugin to plugin in the same way. -/
theorem round_cons (p : Plugin σ ω ε) (ps : List (Plugin σ ω ε)) (c : Callback ε) (w : ω) :
    (round (p :: ps) c w).plugins = p.after c w ::
        (if (haltOf c (p.call c w).1.ending).isSome then ps else (round ps (p.call c w).2 w).plugins) ∧
      (round (p :: ps) c w).halted =
        (haltOf c (p.call c w).1.ending).or (round ps (p.call c w).2 w).halted ∧
      ((round (p :: ps) c w).halted = none →
        (round (p :: ps) c w).handed = (round ps (p.call c w).2 w).handed) := by
  cases c with
  | event e =>
    obtain ⟨ending, ends⟩ : ∃ ending, (p.cls.onEvent e w p.state).1.ending = ending := ⟨_, rfl⟩
    simp only [round, dispatch, Plugin.call, Plugin.after, ends]
    cases ending with
    | returned truth => cases truth <;> simp [haltOf, Callback.isEvent]
    | raised | escaped => simp [haltOf]
  | start =>
    obtain ⟨ending, ends⟩ : ∃ ending, (p.cls.onStart w p.state).ending = ending := ⟨_, rfl⟩
    simp only [round, callAll, Plugin.call, Plugin.after, ends]
    cases ending <;> simp [haltOf, Callback.isEvent]
  | loop =>
    obtain ⟨ending, ends⟩ : ∃ ending, (p.cls.onLoop w p.state).ending = ending := ⟨_, rfl⟩
    simp only [round, callAll, Plugin.call, Plugin.after, ends]
    cases ending <;> simp [haltOf, Callback.isEvent]
  | finish =>
    obtain ⟨ending, ends⟩ : ∃ ending, (p.cls.onFinish w p.state).ending = ending := ⟨_, rfl⟩
    simp only [round, callAll, Plugin.call, Plugin.after, ends]
    cases ending <;> simp [haltOf, Callback.isEvent]

/-- The plugins in front are what they are without those behind, which get what the front
hands on, if it does. -/
theorem round_append (ps qs : List (Plugin σ ω ε)) (c : Callback ε) (w : ω) :
    (round (ps ++ qs) c w).plugins = (round ps c w).plugins ++
      if (round ps c w).halted.isSome then qs else (round qs (round ps c w).handed w).plugins := by
  induction ps generalizing c with
  | nil => cases c <;> rfl
  | cons p ps ih =>
    obtain ⟨plugins, halted, handed⟩ := round_cons p ps c w
    rw [List.cons_append, (round_cons p (ps ++ qs) c w).1, plugins, List.cons_append]
    congr 1
    cases own : haltOf c (p.call c w).1.ending with
    | some halt =>
      rw [own, Option.some_or] at halted
      simp [halted]
    | none =>
      rw [own, Option.none_or] at halted
      simp only [Option.isSome_none, Bool.false_eq_true, if_false]
      rw [ih, halted]
      congr 1
      split
      · rfl
      · rename_i going
        have open_ : (round (p :: ps) c w).halted = none := by
          rw [halted]
          simpa using going
        rw [handed open_]

theorem round_single (p : Plugin σ ω ε) (c : Callback ε) (w : ω) : (round [p] c w).plugins = [p.after c w] := by
  have none_ (d : Callback ε) : (round ([] : List (Plugin σ ω ε)) d w).plugins = [] := by cases d <;> rfl
  rw [(round_cons p [] c w).1, none_, ite_self]

theorem round_classes (ps : List (Plugin σ ω ε)) (c : Callback ε) (w : ω) :
    (round ps c w).plugins.map Plugin.cls = ps.map Plugin.cls := by
  induction ps generalizing c with
  | nil => cases c <;> rfl
  | cons p ps ih =>
    rw [(round_cons p ps c w).1, List.map_cons, List.map_cons]
    congr 1
    split
    · rfl
    · exact ih _

theorem round_kind (ps : List (Plugin σ ω ε)) (c : Callback ε) (w : ω) (open_ : (round ps c w).halted = none) :
    (round ps c w).handed.kind = c.kind := by
  induction ps generalizing c with
  | nil => cases c <;> rfl
  | cons p ps ih =>
    obtain ⟨_, halted, handed⟩ := round_cons p ps c w
    rw [handed open_, ih _ (Option.or_eq_none_iff.mp (halted.symm.trans open_)).2, call_kind]

/-- Without an exception that escapes, a round is cut short by a kept event only. -/
theorem round_contained (contained : ∀ cls ∈ ps.map Plugin.cls, cls.Contained) (c : Callback ε) (w : ω) :
    (round ps c w).halted ≠ some .escaped ∧ (c.isEvent = false → (round ps c w).halted = none) := by
  induction ps generalizing c with
  | nil => cases c <;> simp [round, callAll, dispatch]
  | cons p ps ih =>
    rw [List.map_cons, List.forall_mem_cons] at contained
    obtain ⟨here, rest⟩ := contained
    obtain ⟨bounded, open_⟩ := ih rest (p.call c w).2
    have going : (p.call c w).1.ending ≠ .escaped := here c w p.state
    have same : (p.call c w).2.isEvent = c.isEvent := by cases c <;> rfl
    rw [(round_cons p ps c w).2.1]
    cases ending : (p.call c w).1.ending with
    | escaped => exact absurd ending going
    | raised => simpa [haltOf, same] using And.intro bounded open_
    | returned truth =>
      cases event : c.isEvent with
      | false =>
        rw [same, event] at open_
        simpa [haltOf, event] using ⟨bounded, open_ rfl⟩
      | true => cases truth <;> simp [haltOf, event, bounded]

theorem round_preserves (preserves : ∀ cls ∈ ps.map Plugin.cls, cls.Preserves) (c : Callback ε) (w : ω)
    (open_ : (round ps c w).halted = none) : (round ps c w).handed = c := by
  induction ps generalizing c with
  | nil => cases c <;> rfl
  | cons p ps ih =>
    rw [List.map_cons, List.forall_mem_cons] at preserves
    obtain ⟨_, halted, handed⟩ := round_cons p ps c w
    have same : (p.call c w).2 = c := by
      cases c with
      | event e => exact congrArg Callback.event (preserves.1 e w p.state)
      | start | loop | finish => rfl
    rw [handed open_, ih preserves.2 _ (Option.or_eq_none_iff.mp (halted.symm.trans open_)).2, same]

/-! ### Rounds -/

theorem play_append (ps qs : List (Plugin σ ω ε)) (rounds : List (Callback ε × ω)) :
    play (ps ++ qs) rounds = play ps rounds ++ play qs (passed ps rounds) := by
  induction rounds generalizing ps qs with
  | nil => rfl
  | cons r rest ih =>
    obtain ⟨c, w⟩ := r
    have step (plugins : List (Plugin σ ω ε)) (c : Callback ε) (more : List (Callback ε × ω)) :
        play plugins ((c, w) :: more) = play (round plugins c w).plugins more := rfl
    rw [step, step, round_append, ih, passed]
    split
    · rfl
    · rfl

theorem play_single (p : Plugin σ ω ε) (rounds : List (Callback ε × ω)) : play [p] rounds = [p.alone rounds] := by
  induction rounds generalizing p with
  | nil => rfl
  | cons r rest ih =>
    have step : play [p] (r :: rest) = play (round [p] r.1 r.2).plugins rest := rfl
    rw [step, round_single, ih]
    rfl

theorem play_length (ps : List (Plugin σ ω ε)) (rounds : List (Callback ε × ω)) : (play ps rounds).length = ps.length := by
  induction rounds generalizing ps with
  | nil => rfl
  | cons r rest ih =>
    have same := congrArg List.length (round_classes ps r.1 r.2)
    rw [List.length_map, List.length_map] at same
    exact (ih _).trans same

/-- What reaches a plugin is of the kinds that were begun, in their order. -/
theorem passed_kinds (ps : List (Plugin σ ω ε)) (rounds : List (Callback ε × ω)) :
    ((passed ps rounds).map fun r => (r.1.kind, r.2)).Sublist (rounds.map fun r => (r.1.kind, r.2)) := by
  induction rounds generalizing ps with
  | nil => exact .slnil
  | cons r rest ih =>
    obtain ⟨c, w⟩ := r
    rw [passed, List.map_append, List.map_cons]
    split
    · exact (ih _).cons _
    · rename_i open_
      rw [List.map_singleton, round_kind ps c w (by simpa using open_), List.singleton_append]
      exact (ih _).cons_cons _

/-- Events reach it as they are, where nobody in front changes them. -/
theorem passed_sublist (preserves : ∀ cls ∈ ps.map Plugin.cls, cls.Preserves) (rounds : List (Callback ε × ω)) :
    (passed ps rounds).Sublist rounds := by
  induction rounds generalizing ps with
  | nil => exact .slnil
  | cons r rest ih =>
    obtain ⟨c, w⟩ := r
    have later : (passed (round ps c w).plugins rest).Sublist rest := ih (by rwa [round_classes])
    rw [passed]
    split
    · exact later.cons _
    · rename_i open_
      rw [round_preserves preserves c w (by simpa using open_), List.singleton_append]
      exact later.cons_cons _

theorem isEvent_of_kind {c d : Callback ε} (same : d.kind = c.kind) : d.isEvent = c.isEvent := by
  cases c <;> cases d <;> first | rfl | cases same

theorem eq_of_kind {c d : Callback ε} (same : d.kind = c.kind) (plain : c.isEvent = false) : d = c := by
  cases c with
  | event => cases plain
  | start | loop | finish => cases d <;> first | rfl | cases same

/-- Only events are kept from it, where no exception escapes in front. -/
theorem passed_others (contained : ∀ cls ∈ ps.map Plugin.cls, cls.Contained) (rounds : List (Callback ε × ω)) :
    (passed ps rounds).filter (!·.1.isEvent) = rounds.filter (!·.1.isEvent) := by
  induction rounds generalizing ps with
  | nil => rfl
  | cons r rest ih =>
    obtain ⟨c, w⟩ := r
    have later : (passed (round ps c w).plugins rest).filter (!·.1.isEvent) = rest.filter (!·.1.isEvent) :=
      ih (by rwa [round_classes])
    rw [passed, List.filter_append, later]
    cases kind : c.isEvent with
    | true =>
      split
      · simp [kind]
      · rename_i open_
        have handed := isEvent_of_kind (round_kind ps c w (by simpa using open_))
        simp [kind, handed]
    | false =>
      have open_ := (round_contained contained c w).2 kind
      have same := eq_of_kind (round_kind ps c w open_) kind
      simp [open_, kind, same]

/-! ### The run -/

theorem runRounds_begun (ps : List (Plugin σ ω ε)) (rounds : List (Callback ε × ω)) :
    (runRounds ps rounds).plugins = play ps (runRounds ps rounds).begun ∧ (runRounds ps rounds).begun <+: rounds ∧
      ((∀ cls ∈ ps.map Plugin.cls, cls.Contained) → (runRounds ps rounds).begun = rounds) := by
  induction rounds generalizing ps with
  | nil => exact ⟨rfl, List.prefix_rfl, fun _ => rfl⟩
  | cons r rest ih =>
    obtain ⟨c, w⟩ := r
    obtain ⟨plugins, begun, whole⟩ := ih (round ps c w).plugins
    rw [runRounds]
    dsimp only
    split
    · rename_i escaped
      exact ⟨rfl, List.prefix_append [(c, w)] rest, fun contained => absurd escaped (round_contained contained c w).1⟩
    · refine ⟨plugins, List.prefix_cons_inj (c, w) |>.mpr begun, fun contained => ?_⟩
      dsimp only
      rw [whole (by rwa [round_classes])]

/-- The rounds of a run: on_start, some turns of the loop, and on_finish, unless it has
ended at the start. -/
structure Begun (ps : List (Plugin σ ω ε)) (start : ω) (turns : List (Option ε × ω)) (finish : ω)
    (begun : List (Callback ε × ω)) : Prop where
  shape : begun = [(.start, start)] ∨
    ∃ n, begun = (.start, start) :: (turns.take n).map turn ++ [(.finish, finish)]
  whole : (∀ cls ∈ ps.map Plugin.cls, cls.Contained) →
    begun = (.start, start) :: turns.map turn ++ [(.finish, finish)]

theorem manage_begun (ps : List (Plugin σ ω ε)) (start : ω) (turns : List (Option ε × ω)) (finish : ω) :
    (manage ps start turns finish).plugins = play ps (manage ps start turns finish).begun ∧
      Begun ps start turns finish (manage ps start turns finish).begun := by
  have first : callAll .start start ps = round ps .start start := rfl
  have last (plugins : List (Plugin σ ω ε)) : callAll .finish finish plugins = round plugins .finish finish := rfl
  simp only [manage, first, last]
  split
  · rename_i escaped
    exact ⟨rfl, .inl rfl, fun contained => absurd escaped (round_contained contained .start start).1⟩
  · obtain ⟨plugins, begun, whole⟩ := runRounds_begun (round ps .start start).plugins (turns.map turn)
    refine ⟨?_, .inr ?_, fun contained => ?_⟩
    · rw [plugins]
      simp [play]
    · have cut := List.prefix_iff_eq_take.mp begun
      exact ⟨_, by rw [List.map_take, ← cut]⟩
    · rw [whole (by rwa [round_classes])]

/-- What a plugin goes through behind others. -/
structure GoesThrough (ps : List (Plugin σ ω ε)) (p : Plugin σ ω ε) (begun : List (Callback ε × ω))
    (left : Option (Plugin σ ω ε)) : Prop where
  /-- It is what it would be by itself after the callbacks that reach it. -/
  alone : left = some (p.alone (passed ps begun))
  kinds : ((passed ps begun).map fun r => (r.1.kind, r.2)).Sublist (begun.map fun r => (r.1.kind, r.2))
  same : (∀ cls ∈ ps.map Plugin.cls, cls.Preserves) → (passed ps begun).Sublist begun
  others : (∀ cls ∈ ps.map Plugin.cls, cls.Contained) →
    (passed ps begun).filter (!·.1.isEvent) = begun.filter (!·.1.isEvent)

/-- Keeps a list of its events, passes on their successors, and exits at 7. -/
def meddler : PluginClass (List Nat) Unit Nat where
  new := some []
  onInit := fun _ s => ⟨s, [], .returned true⟩
  onStart := fun _ s => ⟨s, [], .raised⟩
  onEvent := fun e _ s => (⟨e :: s, [], if e = 7 then .escaped else .returned false⟩, e + 1)
  onLoop := fun _ s => ⟨s, [], .returned true⟩
  onFinish := fun _ s => ⟨0 :: s, [], .raised⟩

example : (manage [⟨meddler, []⟩, ⟨meddler, []⟩] () [(some 5, ()), (none, ()), (some 7, ()), (some 9, ())] ()).plugins.map
    Plugin.state = [[0, 7, 5], [0, 6]] := by decide

/-! ### Loading -/

namespace Configured

/-- The settings have it run as a script of its own. -/
def standaloneOnly (entry : Configured) : Bool :=
  match entry.settings with
  | .dict _ => entry.standalone
  | _ => false

/-- It is imported into the manager. -/
def native (entry : Configured) : Bool := entry.settings.enabled && !entry.script && !entry.standaloneOnly

end Configured

/-- The exception leaves `_load_one`. -/
def Module.aborts (w : ω) : Module σ ω ε → Bool
  | .broken => true
  | .plugin cls => cls.new.elim true fun inst => (cls.onInit w inst).ending = .escaped
  | _ => false

/-- The instance that is added, where on_init returns True. -/
def Module.loaded (w : ω) : Module σ ω ε → Option (Plugin σ ω ε)
  | .plugin cls => cls.new.bind fun inst =>
    if (cls.onInit w inst).ending = .returned true then some ⟨cls, (cls.onInit w inst).state⟩ else none
  | _ => none

theorem loadOne_spec (module : Module σ ω ε) (w : ω) (ps : List (Plugin σ ω ε)) :
    loadOne module w ps = if module.aborts w then none else some (ps ++ (module.loaded w).toList) := by
  cases module with
  | missing | broken | classless => simp [loadOne, Module.aborts, Module.loaded]
  | plugin cls =>
    cases made : cls.new with
    | none => simp [loadOne, Module.aborts, made]
    | some inst =>
      simp only [loadOne, Module.aborts, Module.loaded, made, Option.elim_some, Option.bind_some]
      split <;> simp [*]

theorem loadFromConfig_spec (module : Module σ ω ε) (w : ω) (entry : Configured) (on : entry.settings.enabled)
    (ps : List (Plugin σ ω ε)) :
    loadFromConfig module w entry ps = if entry.standaloneOnly then some ps else loadOne module w ps := by
  rw [loadFromConfig, Configured.standaloneOnly]
  cases kind : entry.settings with
  | bool b => simp
  | other => simp
  | dict enabled =>
    rw [kind] at on
    have on : enabled.getD true = true := on
    simp [on]

theorem initPlugins_spec (modules : Str → Module σ ω ε) (w : Str → ω) (entries : List Configured)
    (ps : List (Plugin σ ω ε)) : initPlugins modules w entries ps =
      if (entries.filter Configured.native).any fun entry => (modules entry.name).aborts (w entry.name) then none
      else some (ps ++ (entries.filter Configured.native).filterMap fun entry =>
        (modules entry.name).loaded (w entry.name)) := by
  induction entries generalizing ps with
  | nil => simp [initPlugins]
  | cons entry rest ih =>
    rw [initPlugins]
    by_cases on : entry.settings.enabled
    · rw [if_neg (not_not.mpr on)]
      by_cases script : entry.script
      · have skipped : entry.native = false := by simp [Configured.native, script]
        rw [if_pos script, ih, List.filter_cons_of_neg (by simp [skipped])]
      · rw [if_neg script, loadFromConfig_spec _ _ _ on]
        by_cases declared : entry.standaloneOnly
        · have skipped : entry.native = false := by simp [Configured.native, declared]
          rw [if_pos declared]
          dsimp only
          rw [ih, List.filter_cons_of_neg (by simp [skipped])]
        · have taken : entry.native = true := by simp [Configured.native, on, script, declared]
          rw [if_neg declared, loadOne_spec, List.filter_cons_of_pos taken, List.any_cons, List.filterMap_cons]
          by_cases raised : (modules entry.name).aborts (w entry.name)
          · simp [raised]
          · rw [if_neg raised]
            dsimp only
            rw [ih]
            cases (modules entry.name).loaded (w entry.name) <;> simp [raised]
    · have skipped : entry.native = false := by simp [Configured.native, on]
      rw [if_pos on, ih, List.filter_cons_of_neg (by simp [skipped])]

/-- Exactly one of three. -/
def OneOf (a b c : Prop) : Prop := a ∧ ¬ b ∧ ¬ c ∨ ¬ a ∧ b ∧ ¬ c ∨ ¬ a ∧ ¬ b ∧ c

theorem mem_names {entries : List Configured} (names : (entries.map Configured.name).Nodup) (member : entry ∈ entries)
    (keep : Configured → Bool) :
    entry.name ∈ (entries.filter keep).map Configured.name ↔ keep entry = true := by
  rw [List.mem_map]
  constructor
  · rintro ⟨other, inside, same⟩
    obtain ⟨there, kept⟩ := List.mem_filter.mp inside
    rwa [← List.inj_on_of_nodup_map names there member same]
  · exact fun kept => ⟨entry, List.mem_filter.mpr ⟨member, kept⟩, rfl⟩

/-- Every enabled plugin is started in one way: its script is run, or its module imported in
the order of the configuration, or it is declared standalone and has no script. A module
that raises ends the start; any other that is unfit is left out. -/
theorem plugins_partition (modules : Str → Module σ ω ε) (w : Str → ω) (entries : List Configured)
    (names : (entries.map Configured.name).Nodup) :
    (∀ entry ∈ entries, entry.settings.enabled →
      OneOf (entry.name ∈ standaloneScripts entries)
        (entry.name ∈ (entries.filter Configured.native).map Configured.name)
        (entry.standaloneOnly ∧ ¬ entry.script)) ∧
    (∀ entry ∈ entries, ¬ entry.settings.enabled → entry.name ∉ standaloneScripts entries ∧
      entry.name ∉ (entries.filter Configured.native).map Configured.name) ∧
    initPlugins modules w entries [] =
      if (entries.filter Configured.native).any fun entry => (modules entry.name).aborts (w entry.name) then none
      else some ((entries.filter Configured.native).filterMap fun entry =>
        (modules entry.name).loaded (w entry.name)) := by
  refine ⟨fun entry member on => ?_, fun entry member off => ?_, initPlugins_spec modules w entries []⟩
  · rw [standaloneScripts, mem_names names member, mem_names names member, Configured.native, OneOf]
    cases entry.script <;> cases entry.standaloneOnly <;> simp [on]
  · rw [standaloneScripts, mem_names names member, mem_names names member, Configured.native]
    simp [off]

/-- A plugin that accepts every configuration and does nothing. -/
def idleClass : PluginClass Unit Unit Unit where
  new := some ()
  onInit := fun _ s => ⟨s, [], .returned true⟩
  onStart := fun _ s => ⟨s, [], .returned false⟩
  onEvent := fun e _ s => (⟨s, [], .returned false⟩, e)
  onLoop := fun _ s => ⟨s, [], .returned false⟩
  onFinish := fun _ s => ⟨s, [], .returned false⟩

/-- A module, a script, and a declaration with nothing behind it. -/
def threePlugins : List Configured := [
  ⟨str "automessage", .dict none, false, false⟩,
  ⟨str "godfinger", .bool true, false, true⟩,
  ⟨str "tracker", .dict (some true), true, false⟩]

theorem plugins_partition_three :
    (∀ entry ∈ threePlugins, entry.settings.enabled →
      OneOf (entry.name ∈ standaloneScripts threePlugins)
        (entry.name ∈ (threePlugins.filter Configured.native).map Configured.name)
        (entry.standaloneOnly ∧ ¬ entry.script)) ∧
    (initPlugins (fun _ => .plugin idleClass) (fun _ => ()) threePlugins []).isSome := by
  obtain ⟨one, _, loads⟩ :=
    plugins_partition (fun _ => .plugin idleClass) (fun _ => ()) threePlugins (by decide)
  exact ⟨one, by rw [loads]; decide⟩

end JaplusProxy.Plugins
