import JaplusProxy.Boundary.VmMain
import JaplusProxy.Commands.TruncationProofs

/-! Which client commands vmMain hands on: the crash signatures, and the commands whose
argument ends up in a file name or a script. -/
namespace JaplusProxy.Boundary
open CString Commands

/-- vmMain hands the command on to real_vmMain. -/
def Passes (e : Engine) (client : Int) : Prop :=
  ∃ passage, vmMain true e (.clientCommand client) = some passage ∧ passage.answer = none

/-- What `args[1024]` holds of the argument tokens. -/
def shown (toks : List CStr) : Bytes := (joined ((toks.map CStr.bytes).map visible)).take 1023

/-! ### The verdict -/

theorem passes_iff (e : Engine) (client : Int) :
    Passes e client ↔ (shouldBlockClientCommand e client).map Prod.fst = some false := by
  simp only [Passes, vmMain, Bool.true_eq_false, if_false]
  cases judged : shouldBlockClientCommand e client with
  | none => simp
  | some verdict =>
    obtain ⟨blocked, issued⟩ := verdict
    cases blocked <;> simp [Passage.block, Passage.forward]

section
variable {e : Engine} {client : Int} {name : CStr} {toks : List CStr} (command : e.argv = name :: toks)
include command

theorem joinArgs_shown : joinArgs e = some (shown toks) := by
  rw [joinArgs_spec command, shown, List.map_map]
  rfl

theorem token_name : e.token 0 = name.bytes := by simp [Engine.token, command]

/-- An am* command passes by its rule. -/
theorem passes_am_iff (am : strCasePrefix name.bytes (lit "am") 2 = true) : Passes e client ↔
    (amRule name.bytes).blocks (shown toks) (toks.length + 1) (((toks.map CStr.bytes).headD []).take 127) = false := by
  have first : e.token 1 = (toks.map CStr.bytes).headD [] := by
    cases toks <;> simp [Engine.token, command]
  have argc : e.argc = toks.length + 1 := by simp [Engine.argc, command]
  rw [passes_iff]
  simp (disch := omega) only [shouldBlockClientCommand, joinArgs_shown command, engineArgv, token_name command,
    Nat.reduceSub, Option.bind_eq_bind, Option.bind_some, strCasePrefix_take, am, if_true, Option.map_some, Option.some.injEq,
    jaPlusBlock_eq, amRule_take, first, argc]

/-- Any other command passes by the vanilla rules. -/
theorem passes_vanilla_iff (other : strCasePrefix name.bytes (lit "am") 2 = false) : Passes e client ↔
    refused e name.bytes (e.token 1) = false ∧ strayGc e name.bytes ((e.token 1).take 127) = false ∧
      (vanillaRule name.bytes).blocks (shown toks) ((e.token 1).take 127) ((e.token 2).take 255) = false := by
  have gc : strayGc e (name.bytes.take 127) ((e.token 1).take 127) = strayGc e name.bytes ((e.token 1).take 127) := by
    simp (disch := omega) only [strayGc, strCaseEq_take]
  rw [passes_iff]
  simp (disch := omega) only [shouldBlockClientCommand, joinArgs_shown command, engineArgv, token_name command,
    Nat.reduceSub, Option.bind_eq_bind, Option.bind_some, strCasePrefix_take, other, Bool.false_eq_true, if_false, Option.map_some,
    Option.some.injEq, vanillaBlock_eq, refused_cut, vanillaRule_take, gc, Bool.or_eq_false_iff, and_assoc]

end

/-! ### Crash signatures -/

/-- The command begins with these tokens, in any letter case. -/
def leads : List Bytes → List CStr → Bool
  | [], _ => true
  | s :: sig, t :: argv => foldEq t.bytes s && leads sig argv
  | _ :: _, [] => false

def crashSignatures : List (List Bytes) :=
  [[lit "npc", lit "spawn", lit "ragnos"], [lit "npc", lit "spawn", lit "saber_droid"], [lit "team", lit "follow1"],
    [lit "team", lit "follow2"], [lit "callteamvote"]]

/-- A crash signature never passes, whatever follows, and another npc to spawn always does. -/
structure StopsCrashes (e : Engine) (client : Int) : Prop where
  stopped : ∀ sig ∈ crashSignatures, leads sig e.argv = true → ¬ Passes e client
  spared : ∀ npc spawn x rest, e.argv = npc :: spawn :: x :: rest → leads [lit "npc", lit "spawn"] e.argv = true →
    foldEq x.bytes (lit "ragnos") = false → foldEq x.bytes (lit "saber_droid") = false →
    Clean isSeparator ((x :: rest).map CStr.bytes) → Passes e client

theorem leads_cons (led : leads (s :: sig) argv = true) :
    ∃ t rest, argv = t :: rest ∧ foldEq t.bytes s = true ∧ leads sig rest = true := by
  cases argv with
  | nil => simp [leads] at led
  | cons t rest =>
    rw [leads, Bool.and_eq_true] at led
    exact ⟨t, rest, rfl, led.1, led.2⟩

theorem shown_clean (clean : Clean isSeparator (toks.map CStr.bytes)) : (shown toks).any isSeparator = false := by
  have cut := (clean_iff_shows.mp clean).1
  have all := (any_joined _ (by decide : isSeparator (chr ' ') = false)).mpr cut
  rw [List.any_eq_false] at all ⊢
  exact fun c inside => all c (List.mem_of_mem_take inside)

theorem vanillaRule_npc (named : foldEq npc (lit "npc") = true) : vanillaRule npc = .plain := by
  simp only [vanillaRule, strCaseEq_congr named]
  rfl

theorem strayGc_npc (named : foldEq npc (lit "npc") = true) : strayGc e npc arg1 = false := by
  rw [strayGc, strCaseEq_congr named]
  exact Bool.and_eq_false_iff.mpr (.inl (by decide))

/-- What the npc rule makes of the name of an npc: its last comparison stops a letter early. -/
theorem refused_npc (named : foldEq npc (lit "npc") = true) (spawns : foldEq (e.token 1) (lit "spawn") = true)
    (nulFree : 0 ∉ e.token 2) : refused e npc (e.token 1) =
      (foldEq (e.token 2) (lit "ragnos") || foldEq (e.token 2) (lit "saber_droi")) := by
  have ragnos : strCaseEq (e.token 2) (lit "ragnos") 6 = foldEq (e.token 2) (lit "ragnos") :=
    Bool.eq_iff_iff.mpr (strCaseEq_front nulFree (by decide) (by decide))
  have droid : strCaseEq (e.token 2) (lit "saber_droid") 10 = foldEq (e.token 2) (lit "saber_droi") :=
    Bool.eq_iff_iff.mpr (strCaseEq_front nulFree (by decide) (by decide))
  have own : strCaseEq (lit "npc") (lit "npc") 3 = true := by decide
  have spawn : strCaseEq (lit "spawn") (lit "spawn") 5 = true := by decide
  have others : strCasePrefix (lit "npc") (lit "jkaDST_") 7 = false ∧ strCaseEq (lit "npc") (lit "team") 4 = false ∧
      strCaseEq (lit "npc") (lit "callteamvote") 12 = false := by decide
  simp (disch := omega) only [refused, engineArgv, strCaseEq_take, strCasePrefix_congr named, strCaseEq_congr named,
    strCaseEq_congr spawns, ragnos, droid, own, spawn, others, Bool.false_or, Bool.true_and, Bool.false_and,
    Bool.or_false]

theorem passes_npc_iff (command : e.argv = npc :: spawn :: x :: rest)
    (led : leads [lit "npc", lit "spawn"] e.argv = true) : Passes e client ↔
      foldEq x.bytes (lit "ragnos") = false ∧ foldEq x.bytes (lit "saber_droi") = false ∧
        (shown (spawn :: x :: rest)).any isSeparator = false := by
  rw [command] at led
  simp only [leads, Bool.and_true, Bool.and_eq_true] at led
  obtain ⟨named, spawns⟩ := led
  have other : strCasePrefix npc.bytes (lit "am") 2 = false := (strCasePrefix_congr named).trans (by decide)
  have first : e.token 1 = spawn.bytes := by simp [Engine.token, command]
  have second : e.token 2 = x.bytes := by simp [Engine.token, command]
  rw [passes_vanilla_iff command other, refused_npc named (first ▸ spawns) (second ▸ x.nulFree), strayGc_npc named,
    vanillaRule_npc named, VanillaRule.blocks, ← any_separator, second]
  simp [and_assoc]

theorem stopped_team (command : e.argv = team :: t :: rest) (named : foldEq team.bytes (lit "team") = true)
    (follows : foldEq t.bytes (lit "follow1") = true ∨ foldEq t.bytes (lit "follow2") = true) : ¬ Passes e client := by
  have other : strCasePrefix team.bytes (lit "am") 2 = false := (strCasePrefix_congr named).trans (by decide)
  have first : e.token 1 = t.bytes := by simp [Engine.token, command]
  have own : strCaseEq team.bytes (lit "team") 4 = true := (strCaseEq_iff team.nulFree (by decide)).mpr named
  have arg : (strCaseEq t.bytes (lit "follow1") 7 || strCaseEq t.bytes (lit "follow2") 7) = true := by
    rw [Bool.or_eq_true]
    exact follows.imp (strCaseEq_iff t.nulFree (by decide)).mpr (strCaseEq_iff t.nulFree (by decide)).mpr
  rw [passes_vanilla_iff command other, refused, own, first, arg]
  simp

theorem stopped_callteamvote (command : e.argv = name :: toks) (named : foldEq name.bytes (lit "callteamvote") = true) :
    ¬ Passes e client := by
  have other : strCasePrefix name.bytes (lit "am") 2 = false := (strCasePrefix_congr named).trans (by decide)
  have own : strCaseEq name.bytes (lit "callteamvote") 12 = true := (strCaseEq_iff name.nulFree (by decide)).mpr named
  rw [passes_vanilla_iff command other, refused, own]
  simp

theorem leads_npc : leads [lit "npc", lit "spawn", name] argv = true ↔
    ∃ npc spawn x rest, argv = npc :: spawn :: x :: rest ∧ leads [lit "npc", lit "spawn"] argv = true ∧
      foldEq x.bytes name = true := by
  constructor
  · intro led
    obtain ⟨npc, _, rfl, named, led⟩ := leads_cons led
    obtain ⟨spawn, _, rfl, spawns, led⟩ := leads_cons led
    obtain ⟨x, rest, rfl, same, _⟩ := leads_cons led
    exact ⟨npc, spawn, x, rest, rfl, by simp [leads, named, spawns], same⟩
  · rintro ⟨npc, spawn, x, rest, rfl, led, same⟩
    simpa [leads, same] using led

/-- The other signatures are stopped with any arguments. -/
theorem stopped_signature (member : sig ∈ crashSignatures) (led : leads sig e.argv = true)
    (spelt : sig ≠ [lit "npc", lit "spawn", lit "saber_droid"]) : ¬ Passes e client := by
  simp only [crashSignatures, List.mem_cons, List.not_mem_nil, or_false] at member
  rcases member with rfl | rfl | rfl | rfl | rfl
  · obtain ⟨npc, spawn, x, rest, command, named, same⟩ := leads_npc.mp led
    rw [passes_npc_iff command named, same]
    simp
  · exact absurd rfl spelt
  · obtain ⟨team, _, command, named, led⟩ := leads_cons led
    obtain ⟨t, rest, rfl, follows, _⟩ := leads_cons led
    exact stopped_team command named (.inl follows)
  · obtain ⟨team, _, command, named, led⟩ := leads_cons led
    obtain ⟨t, rest, rfl, follows, _⟩ := leads_cons led
    exact stopped_team command named (.inr follows)
  · obtain ⟨name, toks, command, named, _⟩ := leads_cons led
    exact stopped_callteamvote command named

theorem spawn_clean (spawns : foldEq t (lit "spawn") = true) : Clean isSeparator [t] := by
  intro u member c inside
  obtain rfl := List.mem_singleton.mp member
  by_contra separator
  rw [Bool.not_eq_false] at separator
  have letter : lower c ∈ (lit "spawn").map lower := foldEq_iff.mp spawns ▸ List.mem_map_of_mem inside
  have none : ∀ c, isSeparator c = true → lower c ∉ (lit "spawn").map lower := by decide +kernel
  exact none c separator letter

theorem npc_clean (led : leads [lit "npc", lit "spawn"] (npc :: spawn :: toks) = true)
    (clean : Clean isSeparator (toks.map CStr.bytes)) : Clean isSeparator ((spawn :: toks).map CStr.bytes) := by
  simp only [leads, Bool.and_true, Bool.and_eq_true] at led
  intro t member
  rcases List.mem_cons.mp member with rfl | member
  · exact spawn_clean led.2 _ (.head _)
  · exact clean t member

/-- The crash signatures are stopped and other npcs let through, exactly when the command
spawns neither a saber_droid past the separators nor the same less its last letter. -/
theorem vmMain_crashes_iff (e : Engine) (client : Int) : StopsCrashes e client ↔
    ¬ (leads [lit "npc", lit "spawn", lit "saber_droid"] e.argv = true ∧ (shown e.argv.tail).any isSeparator = false) ∧
      ¬ (leads [lit "npc", lit "spawn", lit "saber_droi"] e.argv = true ∧
        Clean isSeparator (e.argv.tail.map CStr.bytes)) := by
  constructor
  · intro stops
    refine ⟨fun ⟨led, clean⟩ => ?_, fun ⟨led, clean⟩ => ?_⟩
    · obtain ⟨npc, spawn, x, rest, command, named, droid⟩ := leads_npc.mp led
      refine stops.stopped _ (by simp [crashSignatures]) led ((passes_npc_iff command named).mpr ⟨?_, ?_, ?_⟩)
      · exact foldEq_apart droid (by decide)
      · exact foldEq_apart droid (by decide)
      · rwa [command] at clean
    · obtain ⟨npc, spawn, x, rest, command, named, cut⟩ := leads_npc.mp led
      have passes := stops.spared npc spawn x rest command named (foldEq_apart cut (by decide))
        (foldEq_apart cut (by decide)) fun t member => clean t (by
          rw [command]
          exact .tail _ member)
      rw [passes_npc_iff command named, cut] at passes
      simp at passes
  · rintro ⟨droid, cut⟩
    refine ⟨fun sig member led => ?_, fun npc spawn x rest command named ragnos other clean => ?_⟩
    · by_cases spelt : sig = [lit "npc", lit "spawn", lit "saber_droid"]
      · subst spelt
        obtain ⟨npc, spawn, x, rest, command, named, same⟩ := leads_npc.mp led
        rw [passes_npc_iff command named]
        rintro ⟨_, _, clean⟩
        exact droid ⟨led, by rwa [command]⟩
      · exact stopped_signature member led spelt
    · have all : Clean isSeparator (e.argv.tail.map CStr.bytes) := by
        rw [command]
        exact npc_clean (command ▸ named) clean
      refine (passes_npc_iff command named).mpr ⟨ragnos, ?_, ?_⟩
      · by_contra same
        rw [Bool.not_eq_false] at same
        exact cut ⟨leads_npc.mpr ⟨npc, spawn, x, rest, command, named, same⟩, all⟩
      · rw [command] at all
        exact shown_clean all

/-- The crash itself passes, and a name one letter short of it does not. -/
theorem vmMain_crashes_saber_droid :
    ¬ StopsCrashes
      (Engine.executing [⟨lit "npc", by decide⟩, ⟨lit "spawn", by decide⟩, ⟨lit "saber_droid", by decide⟩]) 0 := by
  intro stops
  refine stops.stopped [lit "npc", lit "spawn", lit "saber_droid"] (by simp [crashSignatures]) (by decide) ?_
  exact ⟨_, rfl, by decide +kernel⟩

/-! ### Sinks -/

/-- The name begins so, in any letter case. -/
def Begins (name pre : Bytes) : Prop := foldEq (name.take pre.length) pre = true

theorem begins_iff (visible : 0 ∉ pre) : Begins name pre ↔ strCasePrefix name pre pre.length = true := by
  rw [Begins, foldEq_iff, strCasePrefix_iff visible le_rfl, List.take_length]

/-- A name with one prefix of two that differ lacks the other. -/
theorem begins_other (begins : Begins name a) (visible : 0 ∉ a ∧ 0 ∉ b) (within : n ≤ b.length)
    (differ : ((a.take a.length).take n).map lower ≠ ((b.take n).take a.length).map lower) :
    strCasePrefix name b n = false :=
  strCasePrefix_conflict ((begins_iff visible.1).mp begins) visible ⟨le_rfl, within⟩ differ

theorem amRule_amvstr (begins : Begins name (lit "amvstr")) : amRule name = .sink isTokenChars := by
  have own := (begins_iff (by decide)).mp begins
  have say : strCasePrefix name (lit "amsay") 5 = false := begins_other begins (by decide) (by decide) (by decide)
  have psay : strCasePrefix name (lit "ampsay") 6 = false := begins_other begins (by decide) (by decide) (by decide)
  have counted : (lit "amvstr").length = 6 := by decide
  rw [counted] at own
  simp [amRule, own, say, psay]

theorem amRule_ammap (begins : Begins name (lit "ammap")) : amRule name = .sink isMapChars := by
  have own := (begins_iff (by decide)).mp begins
  have say : strCasePrefix name (lit "amsay") 5 = false := begins_other begins (by decide) (by decide) (by decide)
  have psay : strCasePrefix name (lit "ampsay") 6 = false := begins_other begins (by decide) (by decide) (by decide)
  have vstr : strCasePrefix name (lit "amvstr") 6 = false := begins_other begins (by decide) (by decide) (by decide)
  have counted : (lit "ammap").length = 5 := by decide
  rw [counted] at own
  simp [amRule, own, say, psay, vstr]

theorem begins_am (begins : Begins name pre) (am : (pre.take 2).map lower = (lit "am").map lower)
    (within : 2 ≤ pre.length) : strCasePrefix name (lit "am") 2 = true := by
  rw [Begins, foldEq_iff] at begins
  rw [strCasePrefix_iff (by decide) (by decide)]
  calc (name.take 2).map lower = ((name.take pre.length).map lower).take 2 := by
        rw [← List.map_take, List.take_take, Nat.min_eq_left within]
    _ = (lit "am").map lower := by rw [begins, ← List.map_take, am]
    _ = ((lit "am").take 2).map lower := rfl

/-- The cut argument of a sink passes exactly where the whole argument does. -/
theorem passes_sink_iff (command : e.argv = name :: toks) (am : strCasePrefix name.bytes (lit "am") 2 = true)
    (sink : amRule name.bytes = .sink allowed) : Passes e client ↔
      ∃ t, toks = [t] ∧ 1 ≤ t.bytes.length ∧ t.bytes.length ≤ 64 ∧ allowed t.bytes = true := by
  have whole : ¬ (amRule name.bytes).Evaded (toks.map CStr.bytes) := by
    rw [sink]
    exact id
  have cut := (amRule_cut toks (toks.length + 1)).mpr whole
  have admits : _ ↔ (amRule name.bytes).Admits (toks.map CStr.bytes) := amRule_admits toks
  rw [sink] at cut admits
  -- a sink looks at no joined arguments
  have args : AmRule.blocks (shown toks) (toks.length + 1) (((toks.map CStr.bytes).headD []).take 127) (.sink allowed) =
      AmRule.blocks (joined ((toks.map CStr.bytes).map visible)) (toks.length + 1)
        (((toks.map CStr.bytes).headD []).take 127) (.sink allowed) := rfl
  rw [passes_am_iff command am, sink, args, cut, admits]
  constructor
  · rintro ⟨t, only, filled, short, good⟩
    obtain ⟨u, rfl, rfl⟩ := List.map_eq_singleton_iff.mp only
    exact ⟨u, rfl, List.length_pos_iff.mpr filled, short, good⟩
  · rintro ⟨t, rfl, filled, short, good⟩
    exact ⟨t.bytes, rfl, List.length_pos_iff.mp filled, short, good⟩

/-- A command that names a script or a map passes exactly with one clean token for it. -/
theorem vmMain_sink_iff (e : Engine) (client : Int) (command : e.argv = name :: toks) :
    (Begins name.bytes (lit "amvstr") → (Passes e client ↔ ∃ t, toks = [t] ∧ 1 ≤ t.bytes.length ∧
      t.bytes.length ≤ 64 ∧ ∀ c ∈ t.bytes, isTokenByte c = true)) ∧
    (Begins name.bytes (lit "ammap") → (Passes e client ↔ ∃ t, toks = [t] ∧ 1 ≤ t.bytes.length ∧
      t.bytes.length ≤ 64 ∧ (∀ c ∈ t.bytes, isPathByte c = true) ∧ t.bytes ≠ lit ".." ∧ ¬ lit "../" <:+: t.bytes)) := by
  refine ⟨fun begins => ?_, fun begins => ?_⟩
  · rw [passes_sink_iff command (begins_am begins (by decide) (by decide)) (amRule_amvstr begins)]
    simp only [isTokenChars, List.all_eq_true]
  · rw [passes_sink_iff command (begins_am begins (by decide) (by decide)) (amRule_ammap begins)]
    simp only [isMapChars_iff (CStr.nulFree _)]

theorem vmMain_sink_script :
    Passes (Engine.executing [⟨lit "AMvstrX", by decide⟩, ⟨lit "my_script", by decide⟩]) 0 ∧
      ¬ Passes (Engine.executing [⟨lit "ammap", by decide⟩, ⟨lit "..", by decide⟩]) 0 := by
  constructor
  · have clean : isTokenChars (lit "my_script") = true := by decide
    refine ((vmMain_sink_iff _ 0 rfl).1 (by unfold Begins; decide)).mpr ⟨_, rfl, by decide, by decide, ?_⟩
    exact List.all_eq_true.mp clean
  · intro passes
    obtain ⟨t, only, _, _, _, parent, _⟩ := ((vmMain_sink_iff _ 0 rfl).2 (by unfold Begins; decide)).mp passes
    obtain rfl := List.singleton_inj.mp only
    exact parent rfl

end JaplusProxy.Boundary
