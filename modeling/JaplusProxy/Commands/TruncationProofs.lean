import JaplusProxy.Commands.FilterProofs

/-! The filter judges cut copies: 127 bytes of the name and of the first
argument, 255 of the second and of every joined token. The cut copy of a command
that passes its policy passes it too, so the filter can only be too lenient. -/
namespace JaplusProxy.Commands
open CString

/-! ### What the cut hides -/

/-- The policy on the complete tokens. -/
def completeVerdict (e : Engine) (clientNum : Int) : Bool :=
  let args := joined (e.argv.tail.map CStr.bytes)
  if strCasePrefix (e.token 0) (lit "am") 2 then jaPlusBlock (e.token 0) args e.argc (e.token 1)
  else (vanillaBlock e clientNum (e.token 0) args e.argc (e.token 1) (e.token 2)).1

/-- The cut tokens hold nothing forbidden. -/
def Shows (forbidden : UInt8 → Bool) (toks : List Bytes) : Prop := Clean forbidden (toks.map visible)

/-- A forbidden byte stands behind the 255th. -/
def Hides (forbidden : UInt8 → Bool) (toks : List Bytes) : Prop :=
  ∃ t ∈ toks, ∃ c ∈ t.drop 255, forbidden c = true

instance : Decidable (Hides forbidden toks) :=
  inferInstanceAs (Decidable (∃ t ∈ toks, ∃ c ∈ t.drop 255, forbidden c = true))

theorem clean_iff_shows : Clean forbidden toks ↔ Shows forbidden toks ∧ ¬ Hides forbidden toks := by
  constructor
  · refine fun clean => ⟨?_, fun ⟨t, member, c, inside, bad⟩ => ?_⟩
    · intro u member c inside
      obtain ⟨t, source, rfl⟩ := List.mem_map.mp member
      exact clean t source c (List.mem_of_mem_take inside)
    · simp [clean t member c (List.mem_of_mem_drop inside)] at bad
  · rintro ⟨shows, hidden⟩ t member c inside
    rw [← List.take_append_drop 255 t, List.mem_append] at inside
    rcases inside with front | behind
    · exact shows (visible t) (List.mem_map_of_mem member) c front
    · exact Bool.eq_false_iff.mpr fun bad => hidden ⟨t, member, c, behind, bad⟩

theorem joined_visible_length (toks : List Bytes) :
    (joined (toks.map visible)).length ≤ (joined toks).length := by
  cases toks with
  | nil => simp [joined]
  | cons t toks =>
    have tail : ((toks.map visible).flatMap (chr ' ' :: ·)).length ≤ (toks.flatMap (chr ' ' :: ·)).length := by
      induction toks with
      | nil => simp
      | cons u toks ih =>
        simp only [List.map_cons, List.flatMap_cons, List.length_append, List.length_cons, visible,
          List.length_take] at ih ⊢
        omega
    simp only [List.map_cons, joined_cons, List.length_append, visible, List.length_take] at tail ⊢
    omega

/-- A policy that only grows stricter with the hidden bytes. -/
theorem verdict_eq_iff {cut whole : Bool} (stricter : whole = false → cut = false) :
    cut = whole ↔ ¬ (cut = false ∧ ¬ whole = false) := by
  cases cut <;> cases whole <;> simp_all

/-- Behind the 127th byte stands one that no path has, or a step up ends there. -/
def HidesPath (path : Bytes) : Prop :=
  (∃ c ∈ path.drop 127, isPathByte c = false) ∨ lit "../" <:+: path.drop 125

theorem isPathChars_hides : isPathChars path = true ↔ isPathChars (path.take 127) = true ∧ ¬ HidesPath path := by
  have bytes : (∀ c ∈ path, isPathByte c = true) ↔
      (∀ c ∈ path.take 127, isPathByte c = true) ∧ ¬ ∃ c ∈ path.drop 127, isPathByte c = false := by
    calc (∀ c ∈ path, isPathByte c = true) ↔ ∀ c ∈ path.take 127 ++ path.drop 127, isPathByte c = true := by
          rw [List.take_append_drop]
      _ ↔ _ := by
          rw [List.forall_mem_append]
          simp
  rw [isPathChars_iff, isPathChars_iff, bytes, infix_take_drop path (lit "../") 127, HidesPath, not_or, not_or]
  exact ⟨fun ⟨⟨shown, clear⟩, front, back⟩ => ⟨⟨shown, front⟩, clear, back⟩,
    fun ⟨⟨shown, front⟩, clear, back⟩ => ⟨⟨shown, clear⟩, front, back⟩⟩

/-! ### The am* commands -/

/-- How a rule is evaded: what the cut copies show passes, what they hide does not. -/
def AmRule.Evaded : AmRule → List Bytes → Prop
  | .screen forbidden cap, toks => Shows forbidden toks ∧ (joined (toks.map visible)).length ≤ cap ∧
      (Hides forbidden toks ∨ cap < (joined toks).length)
  | .sink _, _ => False
  | .rename, _ => False
  | .effect, toks => toks.headD [] ≠ [] ∧ isPathChars ((toks.headD []).take 127) = true ∧
      Shows isSeparator toks ∧ (joined (toks.map visible)).length ≤ 512 ∧
      (Hides isSeparator toks ∨ 512 < (joined toks).length ∨ HidesPath (toks.headD []))

/-- A screened join under a limit, cut and complete. -/
theorem screen_cut (blank : forbidden (chr ' ') = false) :
    ((joined (toks.map visible)).any forbidden || cap < (joined (toks.map visible)).length) =
        ((joined toks).any forbidden || cap < (joined toks).length) ↔
      ¬ (Shows forbidden toks ∧ (joined (toks.map visible)).length ≤ cap ∧
        (Hides forbidden toks ∨ cap < (joined toks).length)) := by
  have shorter := joined_visible_length toks
  have cut : ((joined (toks.map visible)).any forbidden || cap < (joined (toks.map visible)).length) = false ↔
      Shows forbidden toks ∧ (joined (toks.map visible)).length ≤ cap := by
    simp [any_joined _ blank, Shows]
  have whole : ((joined toks).any forbidden || cap < (joined toks).length) = false ↔
      Shows forbidden toks ∧ ¬ Hides forbidden toks ∧ (joined toks).length ≤ cap := by
    simp [any_joined _ blank, clean_iff_shows, and_assoc]
  rw [verdict_eq_iff, cut, whole]
  · apply not_congr
    constructor
    · rintro ⟨⟨shows, short⟩, fails⟩
      refine ⟨shows, short, ?_⟩
      by_contra nothing
      rw [not_or, not_lt] at nothing
      exact fails ⟨shows, nothing⟩
    · rintro ⟨shows, short, hidden⟩
      exact ⟨⟨shows, short⟩, fun pass => hidden.elim pass.2.1 (not_lt.mpr pass.2.2)⟩
  · rw [cut, whole]
    exact fun pass => ⟨pass.1, by omega⟩

/-- The limits on a single argument are shorter than its buffer. -/
theorem take_short (within : cap < 127) : (t.take 127).length ≤ cap ↔ (t : Bytes).length ≤ cap := by
  rw [List.length_take]
  omega

theorem take_of_short (short : (t : Bytes).length ≤ 64) : t.take 127 = t :=
  List.take_of_length_le (by omega)

/-- What an effect needs to pass, of its argument and of its join. -/
theorem effect_passes (named : peek path ≠ 0 ↔ given) : AmRule.effect.blocks (joined toks) argc path = false ↔
    given ∧ isPathChars path = true ∧ Clean isSeparator toks ∧ (joined toks).length ≤ 512 := by
  have blank : isSeparator (chr ' ') = false := by decide
  simp only [AmRule.blocks, Bool.or_eq_false_iff, beq_eq_false_iff_ne, any_joined _ blank,
    decide_eq_false_iff_not, not_lt, Bool.not_eq_false', named]
  constructor
  · rintro ⟨⟨⟨named, clean⟩, short⟩, good⟩
    exact ⟨named, good, clean, short⟩
  · rintro ⟨named, good, clean, short⟩
    exact ⟨⟨⟨named, clean⟩, short⟩, good⟩

theorem effect_cut (toks : List Bytes) (argc : Int) (nulFree : 0 ∉ toks.headD []) :
    AmRule.effect.blocks (joined (toks.map visible)) argc ((toks.headD []).take 127) =
      AmRule.effect.blocks (joined toks) argc (toks.headD []) ↔ ¬ AmRule.effect.Evaded toks := by
  have filled := peek_eq_zero_iff nulFree
  have shorter := joined_visible_length toks
  rw [AmRule.Evaded]
  generalize toks.headD [] = arg1 at filled
  have cut : AmRule.effect.blocks (joined (toks.map visible)) argc (arg1.take 127) = false ↔
      arg1 ≠ [] ∧ isPathChars (arg1.take 127) = true ∧ Shows isSeparator toks ∧
        (joined (toks.map visible)).length ≤ 512 :=
    effect_passes (by simp only [peek_take, ne_eq, filled])
  have whole : AmRule.effect.blocks (joined toks) argc arg1 = false ↔
      arg1 ≠ [] ∧ (isPathChars (arg1.take 127) = true ∧ ¬ HidesPath arg1) ∧ Shows isSeparator toks ∧
        ¬ Hides isSeparator toks ∧ (joined toks).length ≤ 512 := by
    rw [effect_passes (not_congr filled), isPathChars_hides, clean_iff_shows, and_assoc (b := ¬ Hides isSeparator toks)]
  rw [verdict_eq_iff, cut, whole]
  · apply not_congr
    constructor
    · rintro ⟨⟨named, path, shows, short⟩, fails⟩
      refine ⟨named, path, shows, short, ?_⟩
      by_contra nothing
      simp only [not_or, not_lt] at nothing
      exact fails ⟨named, ⟨path, nothing.2.2⟩, shows, nothing.1, nothing.2.1⟩
    · rintro ⟨named, path, shows, short, hidden⟩
      refine ⟨⟨named, path, shows, short⟩, ?_⟩
      rintro ⟨_, ⟨_, wholePath⟩, _, clear, limit⟩
      rcases hidden with hides | long | bad
      · exact clear hides
      · omega
      · exact wholePath bad
  · rw [cut, whole]
    exact fun pass => ⟨pass.1, pass.2.1.1, pass.2.2.1, by omega⟩

theorem amRule_cut (toks : List CStr) (argc : Int) :
    (amRule cmd).blocks (joined ((toks.map CStr.bytes).map visible)) argc
        (((toks.map CStr.bytes).headD []).take 127) =
      (amRule cmd).blocks (joined (toks.map CStr.bytes)) argc ((toks.map CStr.bytes).headD []) ↔
    ¬ (amRule cmd).Evaded (toks.map CStr.bytes) := by
  have kind := amRule_kind cmd
  generalize amRule cmd = rule at kind
  generalize shown : (toks.map CStr.bytes).headD [] = t
  cases kind with
  | chat cap => exact screen_cut (by decide)
  | screen cap blank => exact screen_cut blank
  | sink =>
    simp only [AmRule.blocks, AmRule.Evaded, not_false_eq_true, iff_true, peek_take, take_short (by decide : 64 < 127)]
    by_cases short : t.length ≤ 64
    · rw [take_of_short short]
    · simp [short]
  | rename =>
    simp only [AmRule.blocks, AmRule.Evaded, not_false_eq_true, iff_true, peek_take]
    by_cases short : t.length ≤ 64
    · rw [take_of_short short]
    · have long : 64 < (t.take 127).length := by
        rw [List.length_take]
        omega
      rw [decide_eq_true long, decide_eq_true (Nat.lt_of_not_le short), Bool.or_true, Bool.or_true]
  | effect =>
    rw [← shown]
    apply effect_cut _ argc
    cases toks with
    | nil => simp
    | cons t toks => exact t.nulFree

/-! ### The vanilla commands -/

/-- Turned away by the leading bytes of the tokens. -/
def refused (e : Engine) (cmd arg1 : Bytes) : Bool :=
  strCasePrefix cmd (lit "jkaDST_") 7 ||
    strCaseEq cmd (lit "npc") 3 && (strCaseEq (engineArgv e 1 128) (lit "spawn") 5 &&
      (strCaseEq (engineArgv e 2 128) (lit "ragnos") 6 ||
        strCaseEq (engineArgv e 2 128) (lit "saber_droid") 10)) ||
    strCaseEq cmd (lit "team") 4 && (strCaseEq arg1 (lit "follow1") 7 || strCaseEq arg1 (lit "follow2") 7) ||
    strCaseEq cmd (lit "callteamvote") 12

/-- A gc that names no client. -/
def strayGc (e : Engine) (cmd arg1 : Bytes) : Bool := strCaseEq cmd (lit "gc") 2 && badSlot e arg1

inductive VanillaRule where
  | vote
  | chat
  | plain

def vanillaRule (cmd : Bytes) : VanillaRule :=
  if strCaseEq cmd (lit "callvote") 8 then .vote
  else if strCaseEq cmd (lit "say") 3 || strCaseEq cmd (lit "say_team") 8 || strCaseEq cmd (lit "tell") 4 then
    .chat
  else .plain

def VanillaRule.blocks (args arg1 arg2 : Bytes) : VanillaRule → Bool
  | .vote => 256 ≤ arg2.length || voteRange arg1 arg2 || hasCRLF args || hasChaining args
  | .chat => hasCRLF args || 256 < args.length
  | .plain => hasCRLF args || hasChaining args

theorem vanillaBlock_eq : (vanillaBlock e clientNum cmd args argc arg1 arg2).1 =
    (refused e cmd arg1 || strayGc e cmd arg1 || (vanillaRule cmd).blocks args arg1 arg2) := by
  simp only [vanillaBlock, apply_ite Prod.fst, Bool.if_true_left, Bool.decide_eq_true]
  have tail : (vanillaRule cmd).blocks args arg1 arg2 =
      if strCaseEq cmd (lit "callvote") 8 then
        256 ≤ arg2.length || voteRange arg1 arg2 || hasCRLF args || hasChaining args
      else if strCaseEq cmd (lit "say") 3 || strCaseEq cmd (lit "say_team") 8 || strCaseEq cmd (lit "tell") 4 then
        hasCRLF args || 256 < args.length
      else hasCRLF args || hasChaining args := by
    simp only [vanillaRule, apply_ite (VanillaRule.blocks args arg1 arg2)]
    rfl
  rw [← tail, refused, strayGc]
  ac_rfl

/-- The cut copies pass the rule. -/
def VanillaRule.Shows (toks : List Bytes) (arg1 arg2 : Bytes) : VanillaRule → Prop
  | .vote => voteRange arg1 (arg2.take 255) = false ∧ Commands.Shows isSeparator toks
  | .chat => Commands.Shows isCRLF toks ∧ (joined (toks.map visible)).length ≤ 256
  | .plain => Commands.Shows isSeparator toks

/-- What the cut leaves out fails it. -/
def VanillaRule.Hides (toks : List Bytes) (arg2 : Bytes) : VanillaRule → Prop
  | .vote => 256 ≤ arg2.length ∨ Commands.Hides isSeparator toks
  | .chat => Commands.Hides isCRLF toks ∨ 256 < (joined toks).length
  | .plain => Commands.Hides isSeparator toks

/-- A gc whose number goes on behind the 127th byte, and so comes to no client's slot. -/
def StraysBehind (e : Engine) (cmd arg1 : Bytes) : Prop :=
  strCaseEq cmd (lit "gc") 2 = true ∧ 127 < (numeral arg1).length ∧ badSlot e arg1 = true

def VanillaEvaded (e : Engine) (cmd arg1 arg2 : Bytes) (toks : List Bytes) : Prop :=
  refused e cmd arg1 = false ∧ strayGc e cmd (arg1.take 127) = false ∧
    (vanillaRule cmd).Shows toks arg1 arg2 ∧
    (StraysBehind e cmd arg1 ∨ (vanillaRule cmd).Hides toks arg2)

theorem separators (toks : List Bytes) :
    (hasCRLF (joined toks) || hasChaining (joined toks)) = false ↔ Clean isSeparator toks := by
  rw [← any_separator, any_joined _ (by decide)]

theorem vote_cut : voteRange (arg1.take 127) arg2 = voteRange arg1 arg2 := by
  simp (disch := omega) only [voteRange, strCaseEq_take]

theorem vanillaRule_shows (rule : VanillaRule) : rule.blocks (joined (toks.map visible)) (arg1.take 127)
    (arg2.take 255) = false ↔ rule.Shows toks arg1 arg2 := by
  cases rule with
  | vote =>
    have short : ¬ 256 ≤ (arg2.take 255).length := by
      rw [List.length_take]
      omega
    rw [VanillaRule.blocks, VanillaRule.Shows, vote_cut, Bool.or_assoc, decide_eq_false short,
      Bool.false_or, Bool.or_eq_false_iff, separators]
    rfl
  | chat =>
    simp [VanillaRule.blocks, VanillaRule.Shows, hasCRLF, any_joined _ (by decide : isCRLF (chr ' ') = false),
      Commands.Shows]
  | plain => exact separators _

theorem vanillaRule_hides (rule : VanillaRule) : rule.blocks (joined toks) arg1 arg2 = false ↔
    rule.Shows toks arg1 arg2 ∧ ¬ rule.Hides toks arg2 := by
  cases rule with
  | vote =>
    rw [VanillaRule.blocks, VanillaRule.Shows, VanillaRule.Hides, Bool.or_assoc, Bool.or_eq_false_iff,
      Bool.or_eq_false_iff, separators, clean_iff_shows]
    by_cases fits : 256 ≤ arg2.length
    · simp [fits]
    · rw [List.take_of_length_le (by omega)]
      simp [fits, and_assoc]
  | chat =>
    have shorter := joined_visible_length toks
    rw [VanillaRule.blocks, VanillaRule.Shows, VanillaRule.Hides, Bool.or_eq_false_iff, hasCRLF,
      any_joined _ (by decide : isCRLF (chr ' ') = false), clean_iff_shows, decide_eq_false_iff_not]
    constructor
    · exact fun pass => ⟨⟨pass.1.1, by omega⟩, by simp [pass.1.2, pass.2]⟩
    · exact fun pass => ⟨⟨pass.1.1, fun hides => pass.2 (.inl hides)⟩, fun long => pass.2 (.inr long)⟩
  | plain => rw [VanillaRule.blocks, separators, clean_iff_shows, VanillaRule.Shows, VanillaRule.Hides]

/-- A number cut short names no stray client that the whole number does not name. -/
theorem strayGc_cut (stray : strayGc e cmd (arg1.take 127) = true) : strayGc e cmd arg1 = true := by
  simp only [strayGc, badSlot, Bool.and_eq_true, Bool.or_eq_true, decide_eq_true_eq] at stray ⊢
  have side := strtol_take arg1 127
  exact ⟨stray.1, by omega⟩

/-- Nothing but more of the number makes a client's slot stray. -/
theorem strayGc_behind (slot : strayGc e cmd (arg1.take 127) = false) :
    strayGc e cmd arg1 = true ↔ StraysBehind e cmd arg1 := by
  rw [strayGc, Bool.and_eq_true, StraysBehind]
  refine and_congr_right fun gc => ⟨fun stray => ⟨?_, stray⟩, And.right⟩
  by_contra short
  rw [strayGc, gc, Bool.true_and, badSlot, strtol_take_eq (Nat.le_of_not_lt short), ← badSlot, stray] at slot
  contradiction

theorem refused_cut : refused e (cmd.take 127) (arg1.take 127) = refused e cmd arg1 := by
  simp (disch := omega) only [refused, strCasePrefix_take, strCaseEq_take]

theorem vanillaRule_take : vanillaRule (cmd.take 127) = vanillaRule cmd := by
  simp (disch := omega) only [vanillaRule, strCaseEq_take]

theorem vanillaBlock_cut (toks : List Bytes) :
    (vanillaBlock e clientNum (cmd.take 127) (joined (toks.map visible)) argc (arg1.take 127)
        (arg2.take 255)).1 =
      (vanillaBlock e clientNum cmd (joined toks) argc arg1 arg2).1 ↔
    ¬ VanillaEvaded e cmd arg1 arg2 toks := by
  have gc : strayGc e (cmd.take 127) (arg1.take 127) = strayGc e cmd (arg1.take 127) := by
    simp (disch := omega) only [strayGc, strCaseEq_take]
  rw [vanillaBlock_eq, vanillaBlock_eq, refused_cut, vanillaRule_take, gc]
  rw [verdict_eq_iff, Bool.or_eq_false_iff, Bool.or_eq_false_iff, Bool.or_eq_false_iff,
    Bool.or_eq_false_iff, vanillaRule_shows, vanillaRule_hides]
  · apply not_congr
    constructor
    · rintro ⟨⟨⟨passes, slot⟩, shows⟩, fails⟩
      refine ⟨passes, slot, shows, ?_⟩
      by_contra nothing
      rw [← strayGc_behind slot, not_or, Bool.not_eq_true] at nothing
      exact fails ⟨⟨passes, nothing.1⟩, shows, nothing.2⟩
    · rintro ⟨passes, slot, shows, hidden⟩
      refine ⟨⟨⟨passes, slot⟩, shows⟩, ?_⟩
      rintro ⟨⟨_, clear⟩, _, clean⟩
      rcases hidden with stray | hides
      · simp [(strayGc_behind slot).mpr stray] at clear
      · exact clean hides
  · rw [Bool.or_eq_false_iff, Bool.or_eq_false_iff, Bool.or_eq_false_iff, Bool.or_eq_false_iff,
      vanillaRule_shows, vanillaRule_hides]
    rintro ⟨⟨passes, slot⟩, shows, _⟩
    refine ⟨⟨passes, ?_⟩, shows⟩
    by_contra stray
    simp [strayGc_cut (Bool.not_eq_false _ ▸ stray)] at slot

theorem amRule_take : amRule (cmd.take 127) = amRule cmd := by
  simp (disch := omega) only [amRule, strCasePrefix_take]

/-! ### The filter -/

/-- The cut copies pass a policy that the complete command fails. -/
def Evades (e : Engine) : Prop :=
  if strCasePrefix (e.token 0) (lit "am") 2 then (amRule (e.token 0)).Evaded (e.argv.tail.map CStr.bytes)
  else VanillaEvaded e (e.token 0) (e.token 1) (e.token 2) (e.argv.tail.map CStr.bytes)

theorem shouldBlockClientCommand_complete_iff (command : e.argv = name :: toks)
    (whole : (joined (e.argv.map CStr.bytes)).length ≤ 1023) :
    (shouldBlockClientCommand e clientNum).map Prod.fst = some (completeVerdict e clientNum) ↔
      ¬ Evades e := by
  have args := joinArgs_spec command
  have cut : (toks.map fun t => visible t.bytes) = (toks.map CStr.bytes).map visible := by
    rw [List.map_map]
    rfl
  have fits : (joined ((toks.map CStr.bytes).map visible)).length ≤ 1023 := by
    have shorter := joined_visible_length (toks.map CStr.bytes)
    have line : (joined (toks.map CStr.bytes)).length ≤ (joined (e.argv.map CStr.bytes)).length := by
      rw [command, List.map_cons, joined_cons]
      cases toks.map CStr.bytes with
      | nil => simp [joined]
      | cons t toks =>
        simp only [joined_cons, List.flatMap_cons, List.length_append, List.length_cons]
        omega
    omega
  rw [cut, List.take_of_length_le fits] at args
  have first : (toks.map CStr.bytes).headD [] = e.token 1 := by
    cases toks <;> simp [Engine.token, command]
  have rest : e.argv.tail.map CStr.bytes = toks.map CStr.bytes := by rw [command, List.tail_cons]
  simp (disch := omega) only [shouldBlockClientCommand, args, engineArgv, Option.bind_eq_bind, Option.bind_some,
    strCasePrefix_take, completeVerdict, Evades, rest]
  by_cases am : strCasePrefix (e.token 0) (lit "am") 2 = true
  · simp only [am, if_true, Option.map_some, Option.some.injEq, jaPlusBlock_eq]
    rw [amRule_take, ← first]
    exact amRule_cut toks e.argc
  · simp only [am, Bool.false_eq_true, if_false, Option.map_some, Option.some.injEq]
    exact vanillaBlock_cut _

theorem shouldBlockClientCommand_complete_say :
    (shouldBlockClientCommand (Engine.executing [⟨lit "say", by decide⟩, ⟨lit "hi;all", by decide⟩]) 0).map
      Prod.fst = some (completeVerdict (Engine.executing [⟨lit "say", by decide⟩, ⟨lit "hi;all", by decide⟩]) 0) := by
  apply (shouldBlockClientCommand_complete_iff rfl (by decide +kernel)).mpr
  rintro ⟨_, _, _, stray | hides | long⟩
  · exact absurd stray.1 (by decide +kernel)
  · exact absurd hides (by decide +kernel)
  · exact absurd long (by decide +kernel)

/-- A token of 256 bytes whose last one chains a command. -/
def longToken : CStr := ⟨List.replicate 255 (chr 'a') ++ [chr ';'], by decide +kernel⟩

theorem shouldBlockClientCommand_longToken :
    (joined ((Engine.executing [⟨lit "foo", by decide⟩, longToken]).argv.map CStr.bytes)).length ≤ 1023 ∧
      shouldBlockClientCommand (Engine.executing [⟨lit "foo", by decide⟩, longToken]) 0 = some (false, []) ∧
      completeVerdict (Engine.executing [⟨lit "foo", by decide⟩, longToken]) 0 = true := by
  decide +kernel

end JaplusProxy.Commands
