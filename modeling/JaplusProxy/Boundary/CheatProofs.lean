import JaplusProxy.Boundary.MediationProofs

/-! The kick for the cheat signature. Its name has thirteen letters and the comparison
counts twelve, so that the name itself passes and the name less its last letter does not. -/
namespace JaplusProxy.Boundary
open CString Userinfo

/-- The signature, in any letter case, as the value of the first model pair. -/
def Signed (ui : Bytes) : Prop :=
  ∃ v, lookup (lit "model") (pairs ui) = some v ∧ foldEq v (lit "darksidetools") = true

/-- A signed userinfo drops its client and stays away from the game; no other is kicked. -/
structure KicksSigned (e : Engine) (client : Int) : Prop where
  dropped : Signed (e.userinfo client).bytes → ∃ passage, vmMain true e (.clientUserinfoChanged client) = some passage ∧
    passage.answer ≠ none ∧ ∃ reason, .dropClient client reason ∈ passage.issued
  spared : ¬ Signed (e.userinfo client).bytes →
    ∀ uilen klen, (sanitizeUserinfo (e.userinfo client).bytes uilen klen).rc ≠ -1

/-! ### The comparison -/

theorem isCheat_iff (nulFree : 0 ∉ v) : isCheat (v.take 511) = true ↔ foldEq v (lit "darksidetool") = true := by
  rw [isCheat, strCaseEq_take (by decide)]
  exact strCaseEq_front nulFree (by decide) (by decide)

/-- What gets kicked is one letter short of the signature. -/
theorem cheatModel_iff (ui : CStr) : cheatModel ui.bytes = true ↔
    ∃ v, lookup (lit "model") (pairs ui.bytes) = some v ∧ foldEq v (lit "darksidetool") = true := by
  have key : modelRule.key = lit "model" := rfl
  rw [cheatModel_pairs, KeyRule.seen, key]
  cases found : lookup (lit "model") (pairs ui.bytes) with
  | none => simp
  | some v =>
    obtain ⟨p, member, _, rfl⟩ := lookup_mem found
    simp [isCheat_iff (pairs_nulFree ui member)]

/-! ### The kick -/

theorem sanitizeUserinfo_kicked : (sanitizeUserinfo s uilen klen).rc = -1 ↔ cheatModel s = true := by
  have changed (rules : List KeyRule) (state : Bytes × Int) (start : state.2 = 0 ∨ state.2 = 1) :
      (rules.foldl (applyRule uilen) state).2 ≠ -1 := by
    induction rules generalizing state with
    | nil =>
      rw [List.foldl_nil]
      omega
    | cons rule rules ih =>
      rw [List.foldl_cons]
      apply ih
      rw [applyRule]
      split
      · exact start
      · split
        · exact .inr rfl
        · exact start
  rw [sanitizeUserinfo]
  split
  · rename_i cheat
    simp [cheat]
  · rename_i honest
    simpa [honest] using changed userinfoRules (s, 0) (.inl rfl)

theorem userinfoChanged_unkicked (accepted : userinfoLooksEvil (e.userinfo client).bytes = false)
    (honest : cheatModel (e.userinfo client).bytes ≠ true) : (userinfoChanged e client).answer = none := by
  rw [userinfoChanged_spec accepted, if_neg honest]
  split <;> rfl

/-- Every userinfo is treated as the signature asks, exactly when its model is neither the
signature nor the signature less its last letter. -/
theorem vmMain_kicks_iff (e : Engine) (client : Int)
    (accepted : 1 ≤ (e.userinfo client).bytes.length ∧ (e.userinfo client).bytes.length ≤ 1023) :
    KicksSigned e client ↔ ∀ v, lookup (lit "model") (pairs (e.userinfo client).bytes) = some v →
      foldEq v (lit "darksidetools") = false ∧ foldEq v (lit "darksidetool") = false := by
  have fits : userinfoLooksEvil (e.userinfo client).bytes = false :=
    userinfoLooksEvil_iff.mpr ⟨List.ne_nil_of_length_pos accepted.1, accepted.2⟩
  have kicked := cheatModel_iff (e.userinfo client)
  constructor
  · intro kicks v found
    cases signed : foldEq v (lit "darksidetools") with
    | true =>
      have honest : cheatModel (e.userinfo client).bytes ≠ true := by
        rw [ne_eq, kicked]
        rintro ⟨w, other, short⟩
        cases found.symm.trans other
        have apart : foldEq v (lit "darksidetool") = false := foldEq_apart signed (by decide)
        simp [apart] at short
      obtain ⟨passage, entered, blocked, _⟩ := kicks.dropped ⟨v, found, signed⟩
      cases entered
      exact absurd (userinfoChanged_unkicked fits honest) blocked
    | false =>
      refine ⟨rfl, ?_⟩
      by_contra short
      rw [Bool.not_eq_false] at short
      have unsigned : ¬ Signed (e.userinfo client).bytes := by
        rintro ⟨w, other, full⟩
        cases found.symm.trans other
        simp [signed] at full
      exact kicks.spared unsigned 2048 128 (sanitizeUserinfo_kicked.mpr (kicked.mpr ⟨v, found, short⟩))
  · intro apart
    refine ⟨fun ⟨v, found, signed⟩ => ?_, fun _ uilen klen cheat => ?_⟩
    · simp [(apart v found).1] at signed
    · obtain ⟨v, found, short⟩ := kicked.mp (sanitizeUserinfo_kicked.mp cheat)
      simp [(apart v found).2] at short

theorem vmMain_kicks_rancor : KicksSigned (holding rancor) 0 := by
  refine (vmMain_kicks_iff (holding rancor) 0 (by decide)).mpr fun v found => ?_
  have model : lookup (lit "model") (pairs rancor.bytes) = some (lit "rancor") := by decide
  cases model.symm.trans found
  decide

def darkside : CStr := ⟨lit "\\model\\darksidetools", by decide⟩

/-- The signature itself goes through to the game. -/
theorem vmMain_kicks_darkside : (1 ≤ darkside.bytes.length ∧ darkside.bytes.length ≤ 1023) ∧
    (vmMain true (holding darkside) (.clientUserinfoChanged 0)).map Passage.answer = some none ∧
    ¬ KicksSigned (holding darkside) 0 := by
  have passes : (vmMain true (holding darkside) (.clientUserinfoChanged 0)).map Passage.answer = some none := by
    decide +kernel
  refine ⟨by decide, passes, fun kicks => ?_⟩
  obtain ⟨passage, entered, blocked, _⟩ := kicks.dropped ⟨lit "darksidetools", by decide +kernel, by decide⟩
  rw [entered] at passes
  exact blocked (Option.some.inj passes)

end JaplusProxy.Boundary
