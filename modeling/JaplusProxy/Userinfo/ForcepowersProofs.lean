import JaplusProxy.Userinfo.PolicyProofs

/-! The scan over the force powers accepts a grammar: rank, side and powers, three fields
of digits. -/
namespace JaplusProxy.Userinfo
open CString

def IsField (s : Bytes) : Prop := s ≠ [] ∧ ∀ c ∈ s, isDigit c = true

/-- Three fields of digits joined by dashes, the second dash at index 5 at most. -/
structure ForcepowersGrammar (v : Bytes) : Prop where
  length : 22 ≤ v.length ∧ v.length ≤ 24
  fields : ∃ rank side powers, v = rank ++ chr '-' :: side ++ chr '-' :: powers ∧
    IsField rank ∧ IsField side ∧ IsField powers ∧ rank.length + 1 + side.length ≤ 5

theorem digit_not_dash (digit : isDigit c = true) : c ≠ chr '-' := by
  rintro rfl
  contradiction

/-! ### What the scan accepts is in the grammar -/

theorem ForcepowersShape.grammar (shape : ForcepowersShape v) : ForcepowersGrammar v := by
  obtain ⟨length, bytes, two, place, apart⟩ := shape
  refine ⟨length, ?_⟩
  have dashed : chr '-' ∈ v := List.count_pos_iff.mp (by omega)
  obtain ⟨rank, rest, rfl, rankFree⟩ := List.eq_append_cons_of_mem dashed
  rw [List.count_append, List.count_eq_zero.mpr rankFree, List.count_cons_self] at two
  have dashedAgain : chr '-' ∈ rest := List.count_pos_iff.mp (by omega)
  obtain ⟨side, powers, rfl, sideFree⟩ := List.eq_append_cons_of_mem dashedAgain
  rw [List.count_append, List.count_eq_zero.mpr sideFree, List.count_cons_self] at two
  have powersFree : chr '-' ∉ powers := List.count_eq_zero.mp (by omega)
  have first := place rank.length (by simp)
  have second := place (rank.length + 1 + side.length) (by
    rw [List.getElem?_append_right (by omega), show rank.length + 1 + side.length - rank.length = side.length + 1 by omega]
    simp)
  have sideFilled : side ≠ [] := by
    rintro rfl
    exact apart rank.length (by simp) (by simp)
  have powersFilled : powers ≠ [] := by
    rintro rfl
    simp only [List.length_append, List.length_cons, List.length_nil] at length
    omega
  have field {ds : Bytes} (filled : ds ≠ []) (free : chr '-' ∉ ds)
      (inside : ∀ c ∈ ds, c ∈ rank ++ chr '-' :: (side ++ chr '-' :: powers)) : IsField ds :=
    ⟨filled, fun c member => (bytes c (inside c member)).resolve_right fun dash => free (dash ▸ member)⟩
  refine ⟨rank, side, powers, by simp, field ?_ rankFree ?_, field sideFilled sideFree ?_,
    field powersFilled powersFree ?_, second.2⟩
  · exact List.ne_nil_of_length_pos first.1
  · intro c member
    simp [member]
  · intro c member
    simp [member]
  · intro c member
    simp [member]

/-! ### What is in the grammar the scan accepts -/

/-- A field moves the scan to its end, behind a digit. -/
theorem forceScan_field (field : IsField ds) (i : Nat) (previous : UInt8) (rest : Bytes) (seps : Nat) :
    ∃ d, isDigit d = true ∧ forceScan i previous (ds ++ rest) seps = forceScan (i + ds.length) d rest seps := by
  obtain ⟨filled, all⟩ := field
  induction ds generalizing i previous with
  | nil => contradiction
  | cons c ds ih =>
    have digit := all c (.head _)
    have step : forceScan i previous (c :: (ds ++ rest)) seps = forceScan (i + 1) c (ds ++ rest) seps := by
      simp [forceScan, digit, digit_not_dash digit]
    by_cases last : ds = []
    · subst last
      exact ⟨c, digit, step⟩
    · obtain ⟨d, ends, scanned⟩ := ih (i + 1) c last fun b member => all b (.tail _ member)
      refine ⟨d, ends, ?_⟩
      rw [List.cons_append, step, scanned, List.length_cons, Nat.add_right_comm, Nat.add_assoc]

theorem forceScan_dash (digit : isDigit d = true) (early : 1 ≤ i ∧ i ≤ 5) (rest : Bytes) (seps : Nat) :
    forceScan i d (chr '-' :: rest) seps = forceScan (i + 1) (chr '-') rest (seps + 1) := by
  have inside : ¬ (i < 1 ∨ 5 < i) := by omega
  rw [forceScan, if_neg (by simp), if_pos rfl, if_neg inside, if_neg (digit_not_dash digit)]

theorem ForcepowersGrammar.accepted (grammar : ForcepowersGrammar v) :
    forcepowersRule.dirty (v.take 511) = false := by
  obtain ⟨length, rank, side, powers, text, rankDigits, sideDigits, powersDigits, early⟩ := grammar
  have whole : v.take 511 = v := List.take_of_length_le (by omega)
  have scanned : forceScan 0 0 v 0 = some 2 := by
    have rankFilled := List.length_pos_iff.mpr rankDigits.1
    obtain ⟨d, digit, first⟩ := forceScan_field rankDigits 0 0 (chr '-' :: side ++ chr '-' :: powers) 0
    obtain ⟨d', digit', second⟩ := forceScan_field sideDigits (0 + rank.length + 1) (chr '-') (chr '-' :: powers) 1
    obtain ⟨_, _, third⟩ := forceScan_field powersDigits (0 + rank.length + 1 + side.length + 1) (chr '-') [] 2
    rw [List.append_nil] at third
    rw [text, List.append_assoc, first, List.cons_append, forceScan_dash digit (by omega), second,
      forceScan_dash digit' (by omega), third, forceScan]
  simp only [forcepowersRule, whole, scanned, if_neg (show ¬ (v.length < 22 ∨ 24 < v.length) by omega)]
  rfl

theorem forcepowers_accepted_iff (v : Bytes) :
    forcepowersRule.dirty (v.take 511) = false ↔ ForcepowersGrammar v :=
  ⟨fun tidy => (forcepowersRule_tidy tidy).grammar, fun grammar => grammar.accepted⟩

/-! ### SanitizeUserinfo -/

/-- The checked value stays where it is in the grammar, and else is replaced by one that is. -/
structure ForcepowersChecked (v ui : Bytes) : Prop where
  left : lookup (lit "forcepowers") (pairs ui) = some v ↔ ForcepowersGrammar v
  replaced : ¬ ForcepowersGrammar v →
    lookup (lit "forcepowers") (pairs ui) = some (lit "7-1-030000000000003332")
  accepted : forcepowersRule.dirty (lit "7-1-030000000000003332") = false

theorem forcepowers_outcome (v : Bytes) : forcepowersRule.outcome (some v) =
    if forcepowersRule.dirty (v.take 511) then some (lit "7-1-030000000000003332") else some v := by
  have filled : lit "7-1-030000000000003332" ≠ [] := by decide
  exact if_congr Iff.rfl (if_neg filled) rfl

/-- Unless a cheat model has the client kicked before its force powers are read, their
first value is left exactly when it is in the grammar. -/
theorem sanitizeUserinfo_forcepowers (ui : CStr) (klen : Nat) (fits : ui.bytes.length ≤ 1023)
    (found : lookup (lit "forcepowers") (pairs ui.bytes) = some v) :
    cheatModel ui.bytes = true ∧ (sanitizeUserinfo ui.bytes 2048 klen).rc = -1 ∧
        (sanitizeUserinfo ui.bytes 2048 klen).ui = ui.bytes ∨
      ForcepowersChecked v (sanitizeUserinfo ui.bytes 2048 klen).ui := by
  by_cases cheat : cheatModel ui.bytes = true
  · have kicked : sanitizeUserinfo ui.bytes 2048 klen = _ := sanitizeUserinfo_spec fits
    rw [if_pos cheat] at kicked
    exact .inl ⟨cheat, by rw [kicked], by rw [kicked]⟩
  · have kept : (sanitizeUserinfo ui.bytes 2048 klen).rc ≠ -1 := by
      rw [sanitizeUserinfo_spec fits, if_neg cheat]
      split <;> simp
    have member : forcepowersRule ∈ userinfoRules := by simp [userinfoRules]
    have after : lookup (lit "forcepowers") (pairs (sanitizeUserinfo ui.bytes 2048 klen).ui) =
        if forcepowersRule.dirty (v.take 511) then some (lit "7-1-030000000000003332") else some v := by
      have key : forcepowersRule.key = lit "forcepowers" := rfl
      rw [sanitizeUserinfo_pairs fits kept, ← key, lookup_cleanAll userinfoRules_distinct member, key, found,
        forcepowers_outcome]
    have replacement : ForcepowersGrammar (lit "7-1-030000000000003332") := forcepowers_shape.grammar
    refine .inr ⟨?_, fun outside => ?_, by decide +kernel⟩
    · rw [after, ← forcepowers_accepted_iff]
      by_cases dirty : forcepowersRule.dirty (v.take 511) = true
      · rw [if_pos dirty, dirty]
        refine ⟨fun same => ?_, fun tidy => absurd tidy (by decide)⟩
        obtain rfl := Option.some.inj same
        rw [← dirty]
        exact replacement.accepted
      · rw [if_neg dirty]
        exact ⟨fun _ => eq_false_of_ne_true dirty, fun _ => rfl⟩
    · rw [← forcepowers_accepted_iff, Bool.not_eq_false] at outside
      rw [after, if_pos outside]

theorem sanitizeUserinfo_forcepowers_short :
    cheatModel (lit "\\forcepowers\\7-1-0") = true ∧
        (sanitizeUserinfo (lit "\\forcepowers\\7-1-0") 2048 128).rc = -1 ∧
        (sanitizeUserinfo (lit "\\forcepowers\\7-1-0") 2048 128).ui = lit "\\forcepowers\\7-1-0" ∨
      ForcepowersChecked (lit "7-1-0") (sanitizeUserinfo (lit "\\forcepowers\\7-1-0") 2048 128).ui :=
  sanitizeUserinfo_forcepowers ⟨lit "\\forcepowers\\7-1-0", by decide⟩ 128 (by decide) (by decide)

/-- A client that is kicked for its model keeps a value outside the grammar. -/
theorem sanitizeUserinfo_forcepowers_kicked :
    lookup (lit "forcepowers") (pairs (lit "\\model\\darksidetool\\forcepowers\\x")) = some (lit "x") ∧
    sanitizeUserinfo (lit "\\model\\darksidetool\\forcepowers\\x") 2048 128 =
      ⟨-1, lit "\\model\\darksidetool\\forcepowers\\x", some (lit "cheating detected")⟩ ∧
    ¬ ForcepowersGrammar (lit "x") :=
  ⟨by decide, by decide, fun grammar => absurd grammar.length.1 (by decide)⟩

end JaplusProxy.Userinfo
