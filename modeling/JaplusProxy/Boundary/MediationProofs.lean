import JaplusProxy.Boundary.WriteBackProofs
import JaplusProxy.Userinfo.PolicyProofs

/-! The userinfo that the game reads after a forwarded change has been through
the sanitizer, and what it reads is what the sanitizer left: the rewritten text
survives the engine, and a second pass finds nothing to do. -/
namespace JaplusProxy.Boundary
open CString Userinfo

/-- Accepted, and nothing left to kick or fix. -/
structure Mediated (ui : Bytes) : Prop where
  accepted : userinfoLooksEvil ui = false
  clean : (sanitizeUserinfo ui 2048 128).rc = 0
  policy : UserinfoPolicy (pairs ui)

/-! ### A second pass -/

/-- The name that the cleaner leaves is one it would leave again. -/
def NameSettles (ps : List Pair) : Prop :=
  ∀ val, nameRule.seen ps = some val → cleanName (cleanName val 512) 512 = cleanName val 512

/-- Every replacement but that of the name passes its own check. -/
theorem fixed_tidy (member : rule ∈ userinfoRules) (settles : rule.key = nameRule.key →
      cleanName (cleanName val 512) 512 = cleanName val 512) (filled : rule.fixed val ≠ []) :
    rule.dirty ((rule.fixed val).take 511) = false := by
  simp only [userinfoRules, List.mem_cons, List.not_mem_nil, or_false] at member
  rcases member with rfl | rfl | rfl | rfl | rfl | rfl
  · exact (by decide +kernel : modelRule.dirty ((lit "kyle").take 511) = false)
  · exact (by decide +kernel : forcepowersRule.dirty ((lit "7-1-030000000000003332").take 511) = false)
  · have short := cleanName_length_le val 512
    simp only [nameRule] at filled ⊢
    rw [List.take_of_length_le (by omega), settles rfl]
    simp
  · exact absurd rfl filled
  · exact absurd rfl filled
  · exact absurd rfl filled

theorem outcome_tidy (member : rule ∈ userinfoRules) (settles : NameSettles ps) :
    rule.isDirty (cleanAll userinfoRules ps) = false := by
  rw [KeyRule.isDirty, KeyRule.seen, lookup_cleanAll userinfoRules_distinct member]
  cases found : lookup rule.key ps with
  | none => rfl
  | some v =>
    simp only [KeyRule.outcome]
    split_ifs with dirty empty
    · rfl
    · refine fixed_tidy member (fun named => settles _ ?_) empty
      rw [KeyRule.seen, ← named, found, Option.map_some]
    · simpa using dirty

theorem dirtyRules_cleanAll (settles : NameSettles ps) :
    dirtyRules userinfoRules (cleanAll userinfoRules ps) = [] :=
  List.filter_eq_nil_iff.mpr fun rule member => by simp [outcome_tidy member settles]

def isCheat (val : Bytes) : Bool := strCaseEq val (lit "darksidetools") 12

theorem cheatModel_pairs : cheatModel s = (modelRule.seen (pairs s)).any isCheat := by
  have read : infoValue s modelRule.key 512 = modelRule.seen (pairs s) := infoValue_spec (by decide)
  have key : modelRule.key = lit "model" := rfl
  rw [← read, cheatModel, key]
  cases infoValue s (lit "model") 512 <;> rfl

/-- No block turns the model into the cheat signature. -/
theorem cheatModel_cleanAll (honest : cheatModel s = false) :
    cheatModel (render (cleanAll userinfoRules (pairs s))) = false := by
  have member : modelRule ∈ userinfoRules := by simp [userinfoRules]
  rw [cheatModel_pairs, KeyRule.seen] at honest ⊢
  rw [pairs_render (cleanAll_plain (pairs_plain s)), lookup_cleanAll userinfoRules_distinct member]
  cases found : lookup modelRule.key (pairs s) with
  | none => rfl
  | some v =>
    rw [found] at honest
    simp only [KeyRule.outcome]
    split_ifs
    · rfl
    · exact (by decide +kernel : isCheat ((lit "kyle").take 511) = false)
    · exact honest

/-- The sanitizer finds nothing to do on what it left. -/
theorem sanitizeUserinfo_again (honest : cheatModel s = false) (settles : NameSettles (pairs s))
    (fits : (render (cleanAll userinfoRules (pairs s))).length ≤ 1023) :
    (sanitizeUserinfo (render (cleanAll userinfoRules (pairs s))) 2048 klen).rc = 0 := by
  rw [sanitizeUserinfo_spec fits, cheatModel_cleanAll honest,
    pairs_render (cleanAll_plain (pairs_plain s)), dirtyRules_cleanAll settles]
  rfl

/-! ### The way through the engine -/

/-- The rewritten pairs fit, are not none at all, and hold a settled name. -/
structure Survives (ps : List Pair) : Prop where
  fits : (render (kept userinfoRules ps)).length + (render (added userinfoRules ps)).length ≤ 1023
  filled : kept userinfoRules ps ++ added userinfoRules ps ≠ []
  settles : NameSettles ps

theorem rewritten_length : (render (cleanAll userinfoRules ps)).length =
    (render (kept userinfoRules ps)).length + (render (added userinfoRules ps)).length := by
  rw [cleanAll_eq userinfoRules_distinct, render_append, List.length_append]

theorem Survives.short (survives : Survives ps) : (render (cleanAll userinfoRules ps)).length ≤ 1023 := by
  rw [rewritten_length]
  exact survives.fits

theorem rewritten_mediated (ui : CStr) (honest : cheatModel ui.bytes = false)
    (survives : Survives (pairs ui.bytes)) :
    Mediated (render (cleanAll userinfoRules (pairs ui.bytes))) where
  accepted := by
    rw [userinfoLooksEvil_iff]
    refine ⟨?_, survives.short⟩
    intro empty
    apply survives.filled
    rw [← cleanAll_eq userinfoRules_distinct,
      ← pairs_render (cleanAll_plain (pairs_plain ui.bytes)), empty, pairs_nil]
  clean := sanitizeUserinfo_again honest survives.settles survives.short
  policy := by
    rw [pairs_render (cleanAll_plain (pairs_plain ui.bytes))]
    exact cleanAll_policy fun p member => pairs_nulFree ui member

theorem untouched_mediated (ui : CStr) (accepted : userinfoLooksEvil ui.bytes = false)
    (honest : cheatModel ui.bytes = false) (tidy : dirtyRules userinfoRules (pairs ui.bytes) = []) :
    Mediated ui.bytes where
  accepted := accepted
  clean := by
    rw [sanitizeUserinfo_spec (userinfoLooksEvil_iff.mp accepted).2, honest, tidy]
    rfl
  policy := by
    rw [← cleanAll_of_clean tidy]
    exact cleanAll_policy fun p member => pairs_nulFree ui member

/-- What a forwarded change leaves in the engine. -/
theorem userinfoChanged_mediates (passed : (userinfoChanged e client).answer = none)
    (writeBack : dirtyRules userinfoRules (pairs (e.userinfo client).bytes) = [] ∨
      Survives (pairs (e.userinfo client).bytes)) :
    Mediated ((userinfoChanged e client).engine.userinfo client).bytes := by
  cases accepted : userinfoLooksEvil (e.userinfo client).bytes with
  | true => simp [userinfoChanged_evil accepted, Passage.block] at passed
  | false =>
    rw [userinfoChanged_spec accepted] at passed ⊢
    split_ifs at passed ⊢ with cheat tidy
    · contradiction
    · exact untouched_mediated (e.userinfo client) accepted (by simpa using cheat) tidy
    · have survives := writeBack.resolve_left tidy
      simp only [Passage.forward]
      rw [withUserinfo_whole e client (cleanAll_nulFree (e.userinfo client).nulFree) survives.short]
      exact rewritten_mediated _ (by simpa using cheat) survives

/-! ### Sessions -/

/-- Leaves the userinfo of the client alone. -/
def Spares (client : Int) : Event → Prop
  | .userinfo c _ => c ≠ client
  | .enter _ (.clientUserinfoChanged c) => c ≠ client
  | .syscall (.setUserinfo c _) => c ≠ client
  | _ => True

theorem vmMain_userinfo (entered : vmMain real e call = some passage)
    (other : ∀ c, call = .clientUserinfoChanged c → c ≠ client) :
    passage.engine.userinfo client = e.userinfo client := by
  cases real with
  | false =>
    obtain rfl := Option.some.inj entered
    rfl
  | true =>
    cases call with
    | clientUserinfoChanged c =>
      obtain rfl := Option.some.inj entered
      have apart : client ≠ c := fun same => other c rfl same.symm
      simp only [userinfoChanged]
      split_ifs
      · rfl
      · rfl
      · exact Engine.withUserinfo_other e apart
      · rfl
    | clientCommand c =>
      simp only [vmMain, Bool.true_eq_false, if_false, Option.map_eq_some_iff] at entered
      obtain ⟨⟨blocked, issued⟩, _, rfl⟩ := entered
      cases blocked <;> rfl
    | clientBegin c =>
      simp only [vmMain, Bool.true_eq_false, if_false] at entered
      split_ifs at entered <;> obtain rfl := Option.some.inj entered <;> rfl
    | clientConnect c =>
      obtain rfl := Option.some.inj entered
      rfl
    | other cmd =>
      obtain rfl := Option.some.inj entered
      rfl

/-- Only a write of the userinfo itself changes it. -/
theorem proxySyscall_userinfo (e : Engine) (other : ∀ text, call ≠ .setUserinfo client text) :
    (proxySyscall e call).engine.userinfo client = e.userinfo client := by
  cases call with
  | setUserinfo c text =>
    have apart : client ≠ c := fun same => other text (by rw [same])
    exact Engine.withUserinfo_other e apart
  | getEntityToken buffer size =>
    simp only [proxySyscall]
    split
    · rfl
    · rw [apply_ite Effect.engine]
      exact congrFun (congrArg Engine.userinfo (ite_self e)) client
  | sendServerCommand c text =>
    cases text with
    | none => rfl
    | some text =>
      simp only [proxySyscall]
      split_ifs <;> rfl
  | setConfigstring index text =>
    simp only [proxySyscall]
    split_ifs <;> rfl
  | _ => rfl

theorem step_userinfo (spares : Spares client event) (stepped : Session.step s event = some t) :
    t.engine.userinfo client = s.engine.userinfo client := by
  cases event with
  | userinfo c ui =>
    obtain rfl := Option.some.inj stepped
    exact Function.update_of_ne (Ne.symm spares) ..
  | turn world =>
    obtain rfl := Option.some.inj stepped
    rfl
  | enter found call =>
    obtain ⟨passage, entered, rfl⟩ := Option.map_eq_some_iff.mp stepped
    apply vmMain_userinfo entered
    intro c same
    subst call
    exact spares
  | syscall call =>
    obtain rfl := Option.some.inj stepped
    apply proxySyscall_userinfo s.engine
    intro text same
    subst call
    exact spares rfl

theorem run_userinfo (spares : ∀ event ∈ events, Spares client event)
    (ran : Session.run s events = some t) : t.engine.userinfo client = s.engine.userinfo client := by
  induction events generalizing s with
  | nil => rw [Option.some.inj ran]
  | cons event events ih =>
    obtain ⟨u, stepped, rest⟩ := Option.bind_eq_some_iff.mp ran
    rw [ih (fun e member => spares e (List.mem_cons_of_mem _ member)) rest,
      step_userinfo (spares event (by simp)) stepped]

theorem run_append (s : Session) (before after : List Event) :
    s.run (before ++ after) = (s.run before).bind fun t => t.run after := by
  induction before generalizing s with
  | nil => rfl
  | cons event before ih =>
    simp only [List.cons_append, Session.run, Option.bind_assoc, ih]

theorem readUserinfo_whole (fits : (s.engine.userinfo client).bytes.length < size) :
    Session.readUserinfo s client size = some (s.engine.userinfo client).bytes := by
  change some ((s.engine.userinfo client).bytes.take (size - 1)) = _
  rw [List.take_of_length_le (by omega)]

/-- In every session: once a changed userinfo of a client is passed on, and while
nothing writes a new one, the game reads a mediated userinfo. -/
theorem userinfoChanged_mediated {start s t : Session} (reached : start.run history = some s)
    (forwarded : s.Forwards found (.clientUserinfoChanged client))
    (writeBack : dirtyRules userinfoRules (pairs (s.engine.userinfo client).bytes) = [] ∨
      Survives (pairs (s.engine.userinfo client).bytes))
    (ran : start.run (history ++ .enter found (.clientUserinfoChanged client) :: later) = some t)
    (spared : ∀ event ∈ later, Spares client event) (room : 1024 ≤ size) :
    ∃ ui, t.readUserinfo client size = some ui ∧ Mediated ui := by
  rw [run_append, reached, Option.bind_some] at ran
  obtain ⟨u, stepped, rest⟩ := Option.bind_eq_some_iff.mp ran
  obtain ⟨passage, entered, passed⟩ := forwarded
  simp only [Session.step, entered, Option.map_some, Option.some.injEq] at stepped
  have same : passage = userinfoChanged s.engine client := by
    cases real : s.real || found with
    | false =>
      rw [real] at entered
      obtain rfl := Option.some.inj entered
      contradiction
    | true =>
      rw [real] at entered
      exact (Option.some.inj entered).symm
  subst same stepped
  have mediated := userinfoChanged_mediates passed writeBack
  rw [← run_userinfo spared rest] at mediated
  have fits := (userinfoLooksEvil_iff.mp mediated.accepted).2
  exact ⟨_, readUserinfo_whole (by omega), mediated⟩

theorem userinfoChanged_mediated_rancor :
    ∃ t, Session.run ⟨holding rancor, false⟩ [.enter true (.clientUserinfoChanged 0), .syscall (.print [])] = some t ∧
      t.readUserinfo 0 1024 = some (lit "\\model\\kyle") ∧ Mediated (lit "\\model\\kyle") := by
  have reached : Session.run ⟨holding rancor, false⟩ [] = some ⟨holding rancor, false⟩ := rfl
  have forwarded : Session.Forwards ⟨holding rancor, false⟩ true (.clientUserinfoChanged 0) :=
    ⟨_, rfl, by decide +kernel⟩
  have unnamed : nameRule.seen (pairs rancor.bytes) = none := by decide +kernel
  have survives : Survives (pairs rancor.bytes) :=
    ⟨by decide +kernel, by decide +kernel, fun val found => by simp [unnamed] at found⟩
  have spared : ∀ event ∈ [Event.syscall (.print [])], Spares 0 event := by simp [Spares]
  refine ⟨_, rfl, by decide +kernel, ?_⟩
  obtain ⟨ui, read, mediated⟩ := userinfoChanged_mediated reached forwarded (.inr survives) rfl spared (Nat.le_refl 1024)
  have kyle : ui = lit "\\model\\kyle" := (Option.some.inj read).symm.trans (by decide +kernel)
  exact kyle ▸ mediated

/-- CONNECT goes through with whatever the client sent. -/
theorem clientConnect_unmediated :
    ∃ s t, Session.run ⟨Engine.executing [], true⟩ [.userinfo 0 rancor] = some s ∧
      s.Forwards true (.clientConnect 0) ∧ s.run [.enter true (.clientConnect 0)] = some t ∧
      ∃ ui, t.readUserinfo 0 1024 = some ui ∧ (sanitizeUserinfo ui 2048 128).rc = 1 ∧ ¬ Mediated ui := by
  have dirty : (sanitizeUserinfo rancor.bytes 2048 128).rc = 1 := by decide +kernel
  refine ⟨_, _, rfl, ⟨_, rfl, rfl⟩, rfl, rancor.bytes, rfl, dirty, ?_⟩
  intro mediated
  exact absurd (dirty.symm.trans mediated.clean) (by decide)

end JaplusProxy.Boundary
