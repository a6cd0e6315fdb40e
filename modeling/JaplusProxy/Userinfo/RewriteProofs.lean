import JaplusProxy.Userinfo.SanitizeProofs

/-! Only dirty keys are rewritten: every other key reads the same before and after. -/
namespace JaplusProxy.Userinfo
open CString

/-- The check of some block fails on the value of this key. -/
def FailsCheck (s key : Bytes) : Prop :=
  ∃ rule ∈ userinfoRules, (infoValue s rule.key 512).any rule.dirty = true ∧ foldEq rule.key key = true

theorem clean_frame {rule : KeyRule} (untouched : rule.isDirty ps = true → foldEq rule.key k = false) :
    lookup k (rule.clean ps) = lookup k ps := by
  cases dirty : rule.isDirty ps with
  | true => exact KeyRule.lookup_clean_other (untouched dirty)
  | false => rw [KeyRule.clean_of_clean dirty]

theorem cleanAll_frame (distinct : Distinct rules)
    (untouched : ∀ rule ∈ rules, rule.isDirty ps = true → foldEq rule.key k = false) :
    lookup k (cleanAll rules ps) = lookup k ps := by
  induction rules generalizing ps with
  | nil => rfl
  | cons rule rules ih =>
    obtain ⟨apart, rest⟩ := List.pairwise_cons.mp distinct
    have later : ∀ r ∈ rules, r.isDirty (rule.clean ps) = true → foldEq r.key k = false := by
      intro r member dirty
      rw [KeyRule.isDirty_clean_other (apart r member)] at dirty
      exact untouched r (.tail _ member) dirty
    rw [cleanAll_cons, ih rest later, clean_frame (untouched rule (.head _))]

/-- The sanitizer leaves the string alone, or rewrites it for its dirty keys only. -/
theorem sanitizeUserinfo_frame (s : Bytes) (klen : Nat) (fits : s.length ≤ 1023)
    (kept : (sanitizeUserinfo s 2048 klen).rc ≠ -1) :
    (sanitizeUserinfo s 2048 klen).rc = 0 ∧ (sanitizeUserinfo s 2048 klen).ui = s ∨
      (sanitizeUserinfo s 2048 klen).rc = 1 ∧ ∀ key, ¬ FailsCheck s key →
        ∀ outlen, infoValue (sanitizeUserinfo s 2048 klen).ui key outlen = infoValue s key outlen := by
  have rewritten := sanitizeUserinfo_pairs fits kept
  have outcome : sanitizeUserinfo s 2048 klen = _ := sanitizeUserinfo_spec fits
  split at outcome
  · rw [outcome] at kept
    contradiction
  · split at outcome
    · exact .inl ⟨by rw [outcome], by rw [outcome]⟩
    · refine .inr ⟨by rw [outcome], fun key passes outlen => ?_⟩
      have untouched : ∀ rule ∈ userinfoRules, rule.isDirty (pairs s) = true → foldEq rule.key key = false := by
        intro rule member dirty
        have read : infoValue s rule.key 512 = rule.seen (pairs s) := infoValue_spec (by decide)
        by_contra named
        rw [Bool.not_eq_false] at named
        exact passes ⟨rule, member, by rw [read]; exact dirty, named⟩
      by_cases empty : outlen = 0
      · rw [infoValue, infoValue, if_pos empty, if_pos empty]
      · rw [infoValue_spec empty, infoValue_spec empty, rewritten, cleanAll_frame userinfoRules_distinct untouched]

theorem sanitizeUserinfo_frame_rancor :
    (sanitizeUserinfo (lit "\\model\\rancor\\rate\\25000") 2048 128).rc = 0 ∧
        (sanitizeUserinfo (lit "\\model\\rancor\\rate\\25000") 2048 128).ui = lit "\\model\\rancor\\rate\\25000" ∨
      (sanitizeUserinfo (lit "\\model\\rancor\\rate\\25000") 2048 128).rc = 1 ∧
        ∀ key, ¬ FailsCheck (lit "\\model\\rancor\\rate\\25000") key → ∀ outlen,
          infoValue (sanitizeUserinfo (lit "\\model\\rancor\\rate\\25000") 2048 128).ui key outlen =
            infoValue (lit "\\model\\rancor\\rate\\25000") key outlen :=
  sanitizeUserinfo_frame (lit "\\model\\rancor\\rate\\25000") 128 (by decide) (by decide +kernel)

end JaplusProxy.Userinfo
