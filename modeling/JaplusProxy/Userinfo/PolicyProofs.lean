import JaplusProxy.Userinfo.SanitizeProofs

/-! The policy of the checked keys holds of every string that leaves the
sanitizer. Values are read through a buffer of 512 bytes; a longer value is
dirty under every check, so the cut part never hides anything. -/
namespace JaplusProxy.Userinfo
open CString

/-- Two separators among the first bytes, not side by side, and digits. -/
structure ForcepowersShape (v : Bytes) : Prop where
  length : 22 ≤ v.length ∧ v.length ≤ 24
  bytes : ∀ c ∈ v, isDigit c = true ∨ c = chr '-'
  two : v.count (chr '-') = 2
  place : ∀ i, v[i]? = some (chr '-') → 1 ≤ i ∧ i ≤ 5
  apart : ∀ i, v[i]? = some (chr '-') → v[i + 1]? ≠ some (chr '-')

structure ModelShape (v : Bytes) : Prop where
  printable : ∀ c ∈ v, 32 ≤ c ∧ c ≤ 126
  length : v.length < 64
  allowed : v.map lower ∉ [lit "jedi_/red", lit "jedi_/blue", lit "rancor", lit "wampa"]

structure TokenShape (v : Bytes) : Prop where
  bytes : ∀ c ∈ v, isTokenByte c = true
  length : v.length < 64

structure HiltShape (v : Bytes) : Prop where
  bytes : ∀ c ∈ v, isPathByte c = true
  length : v.length < 64
  inside : ¬ lit "../" <:+: v

/-- The first match of every checked key, when present, meets its policy. -/
structure UserinfoPolicy (ps : List Pair) : Prop where
  model : ∀ v, lookup (lit "model") ps = some v → ModelShape v
  forcepowers : ∀ v, lookup (lit "forcepowers") ps = some v → ForcepowersShape v
  siegeclass : ∀ v, lookup (lit "siegeclass") ps = some v → TokenShape v
  saber1 : ∀ v, lookup (lit "saber1") ps = some v → HiltShape v
  saber2 : ∀ v, lookup (lit "saber2") ps = some v → HiltShape v

/-! ### One check -/

/-- A cut that is shorter than the buffer is no cut. -/
theorem take_buffer (short : (v.take 511).length < 64) : v.take 511 = (v : Bytes) := by
  rw [List.length_take] at short
  exact List.take_of_length_le (by omega)

theorem foldEq_of_map (lowered : (lit name).map lower = lit name) (same : v.map lower = lit name) :
    foldEq v (lit name) = true :=
  foldEq_iff.mpr (same.trans lowered.symm)

theorem modelRule_tidy (nulFree : 0 ∉ v) (tidy : modelRule.dirty (v.take 511) = false) : ModelShape v := by
  simp only [modelRule, Bool.or_eq_false_iff, Bool.not_eq_false', decide_eq_false_iff_not,
    not_le] at tidy
  obtain ⟨⟨⟨⟨⟨red, blue⟩, rancor⟩, wampa⟩, clean⟩, short⟩ := tidy
  rw [take_buffer short] at red blue rancor wampa clean short
  have differs {name : String} (literal : 0 ∉ lit name) (lowered : (lit name).map lower = lit name)
      (tested : strCaseEq v (lit name) (lit name).length = false) : v.map lower ≠ lit name := by
    intro same
    have matched := (strCaseEq_iff nulFree literal).mpr (foldEq_of_map lowered same)
    exact absurd (matched.symm.trans tested) (by decide)
  refine ⟨fun c member => by simpa [isAsciiByte] using List.all_eq_true.mp clean c member, short, ?_⟩
  simp only [List.mem_cons, List.not_mem_nil, or_false, not_or]
  exact ⟨differs (by decide) (by decide) red, differs (by decide) (by decide) blue,
    differs (by decide) (by decide) rancor, differs (by decide) (by decide) wampa⟩

/-- A byte that the scan gets over. -/
theorem forceScan_cons (scanned : forceScan i previous (c :: s) seps = some n) :
    (c = chr '-' ∧ (1 ≤ i ∧ i ≤ 5) ∧ previous ≠ chr '-' ∧ forceScan (i + 1) (chr '-') s (seps + 1) = some n) ∨
      (c ≠ chr '-' ∧ isDigit c = true ∧ forceScan (i + 1) c s seps = some n) := by
  rw [forceScan] at scanned
  split at scanned
  · contradiction
  · rename_i allowed
    split at scanned
    · rename_i dash
      subst dash
      split at scanned
      · contradiction
      · rename_i placed
        split at scanned
        · contradiction
        · rename_i single
          exact .inl ⟨rfl, by omega, single, scanned⟩
    · rename_i other
      exact .inr ⟨other, by simpa [other] using allowed, scanned⟩

theorem forceScan_some (scanned : forceScan i previous s seps = some n) :
    (∀ c ∈ s, isDigit c = true ∨ c = chr '-') ∧ s.count (chr '-') + seps = n ∧
      (∀ j, s[j]? = some (chr '-') → 1 ≤ i + j ∧ i + j ≤ 5) ∧
      (∀ j, s[j]? = some (chr '-') → s[j + 1]? ≠ some (chr '-')) ∧
      (previous = chr '-' → s[0]? ≠ some (chr '-')) := by
  induction s generalizing i previous seps with
  | nil => simpa [forceScan] using scanned
  | cons c s ih =>
    rcases forceScan_cons scanned with ⟨rfl, placed, single, rest⟩ | ⟨other, digit, rest⟩
    · obtain ⟨bytes, count, place, apart, next⟩ := ih rest
      refine ⟨by simpa using bytes, ?_, ?_, ?_, fun dashes => absurd dashes single⟩
      · rw [List.count_cons_self]
        omega
      · intro j found
        cases j with
        | zero => omega
        | succ j =>
          have := place j (by simpa using found)
          omega
      · intro j found
        cases j with
        | zero => simpa using next rfl
        | succ j => simpa using apart j (by simpa using found)
    · obtain ⟨bytes, count, place, apart, _⟩ := ih rest
      refine ⟨List.forall_mem_cons.mpr ⟨.inl digit, bytes⟩, ?_, ?_, ?_, fun _ => by simpa using other⟩
      · rw [List.count_cons_of_ne other]
        exact count
      · intro j found
        cases j with
        | zero => exact absurd (by simpa using found) other
        | succ j =>
          have := place j (by simpa using found)
          omega
      · intro j found
        cases j with
        | zero => exact absurd (by simpa using found) other
        | succ j => simpa using apart j (by simpa using found)

theorem forcepowersRule_tidy (tidy : forcepowersRule.dirty (v.take 511) = false) :
    ForcepowersShape v := by
  simp only [forcepowersRule] at tidy
  split at tidy
  · contradiction
  · rename_i sized
    have whole : v.take 511 = v := take_buffer (by omega)
    rw [whole] at tidy sized
    simp only [bne_eq_false_iff_eq] at tidy
    obtain ⟨bytes, count, place, apart, _⟩ := forceScan_some tidy
    exact ⟨by omega, bytes, by omega, fun i found => by simpa using place i found, apart⟩

theorem siegeclassRule_tidy (nulFree : 0 ∉ v) (tidy : siegeclassRule.dirty (v.take 511) = false) :
    TokenShape v := by
  simp only [siegeclassRule, Bool.or_eq_false_iff, decide_eq_false_iff_not, not_le] at tidy
  obtain ⟨⟨token, short⟩, _⟩ := tidy
  rw [take_buffer short] at token short
  refine ⟨?_, short⟩
  intro c member
  have filled : peek v ≠ 0 := by
    rw [ne_eq, peek_eq_zero_iff nulFree]
    exact List.ne_nil_of_mem member
  have clean : isTokenChars v = true := by simpa [filled] using token
  exact List.all_eq_true.mp clean c member

theorem saberRule_tidy (tidy : (saberRule key plain short).dirty (v.take 511) = false) : HiltShape v := by
  simp only [saberRule, Bool.or_eq_false_iff, Bool.not_eq_false', decide_eq_false_iff_not,
    not_le] at tidy
  obtain ⟨⟨path, short⟩, _⟩ := tidy
  rw [take_buffer short] at path short
  simp only [isPathChars, Bool.and_eq_true, Bool.not_eq_true', Bool.or_eq_false_iff] at path
  refine ⟨fun c member => List.all_eq_true.mp path.1 c member, short, ?_⟩
  rw [← strstr_iff, path.2.1]
  decide

/-! ### All checks -/

theorem kyle_shape : ModelShape (lit "kyle") := ⟨by decide +kernel, by decide, by decide⟩

theorem forcepowers_shape : ForcepowersShape (lit "7-1-030000000000003332") :=
  forcepowersRule_tidy (by decide +kernel)

/-- A rule whose tidy values and whose replacement have a shape establishes it. -/
theorem established (rule : KeyRule) {Shape : Bytes → Prop} (member : rule ∈ userinfoRules)
    (tidy : ∀ v, 0 ∉ v → rule.dirty (v.take 511) = false → Shape v)
    (fixed : ∀ v, rule.fixed v ≠ [] → Shape (rule.fixed v)) (nulFree : ∀ p ∈ ps, 0 ∉ p.2)
    (found : lookup rule.key (cleanAll userinfoRules ps) = some v) : Shape v := by
  rw [lookup_cleanAll userinfoRules_distinct member] at found
  cases before : lookup rule.key ps with
  | none => simp [before, KeyRule.outcome] at found
  | some w =>
    obtain ⟨p, inside, _, rfl⟩ := lookup_mem before
    simp only [before, KeyRule.outcome] at found
    split_ifs at found with dirty empty
    · obtain rfl := Option.some.inj found
      exact fixed _ empty
    · obtain rfl := Option.some.inj found
      exact tidy _ (nulFree p inside) (by simpa using dirty)

theorem cleanAll_policy (nulFree : ∀ p ∈ ps, 0 ∉ p.2) : UserinfoPolicy (cleanAll userinfoRules ps) where
  model v := established modelRule (by simp [userinfoRules])
    (fun _ => modelRule_tidy) (fun _ _ => kyle_shape) nulFree
  forcepowers v := established forcepowersRule (by simp [userinfoRules])
    (fun _ _ => forcepowersRule_tidy) (fun _ _ => forcepowers_shape) nulFree
  siegeclass v := established siegeclassRule (by simp [userinfoRules])
    (fun _ => siegeclassRule_tidy) (fun _ filled => absurd rfl filled) nulFree
  saber1 v := established saber1Rule (by simp [userinfoRules])
    (fun _ _ => saberRule_tidy) (fun _ filled => absurd rfl filled) nulFree
  saber2 v := established saber2Rule (by simp [userinfoRules])
    (fun _ _ => saberRule_tidy) (fun _ filled => absurd rfl filled) nulFree

/-- Every string that is not kicked leaves with its policy established, for
any keys in any order and letter case. -/
theorem sanitizeUserinfo_policy (ui : CStr) (klen : Nat) (fits : ui.bytes.length ≤ 1023)
    (kept : (sanitizeUserinfo ui.bytes 2048 klen).rc ≠ -1) :
    UserinfoPolicy (pairs (sanitizeUserinfo ui.bytes 2048 klen).ui) := by
  rw [sanitizeUserinfo_pairs fits kept]
  exact cleanAll_policy fun p member => pairs_nulFree ui member

theorem sanitizeUserinfo_policy_rancor :
    UserinfoPolicy (pairs (sanitizeUserinfo (lit "\\model\\Rancor\\MODEL\\kyle") 2048 128).ui) :=
  sanitizeUserinfo_policy ⟨lit "\\model\\Rancor\\MODEL\\kyle", by decide⟩ 128 (by decide) (by decide +kernel)

end JaplusProxy.Userinfo
