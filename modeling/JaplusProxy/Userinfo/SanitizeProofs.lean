import JaplusProxy.Userinfo.InfoStringProofs
import JaplusProxy.Userinfo.Sanitize

/-! The sanitizer on the pair list: a dirty key loses its pairs and its repair is
appended. The keys of the blocks differ, so no block sees what another one did. -/
namespace JaplusProxy.Userinfo
open CString

namespace KeyRule
variable (rule : KeyRule) (ps : List Pair)

/-- The value as the 512-byte buffer holds it. -/
def seen : Option Bytes := (lookup rule.key ps).map (List.take 511)

def isDirty : Bool := (rule.seen ps).any rule.dirty

/-- What a dirty key gets in place of its pairs. -/
def repair : List Pair :=
  match rule.seen ps with
  | some val => if rule.fixed val = [] then [] else [(rule.key, rule.fixed val)]
  | none => []

def clean : List Pair := if rule.isDirty ps then erase rule.key ps ++ rule.repair ps else ps

variable {rule ps} {other : KeyRule}

theorem clean_of_dirty (value : rule.seen ps = some val) (dirty : rule.dirty val = true) :
    rule.clean ps = store rule.key (rule.fixed val) ps := by
  simp [clean, isDirty, repair, store, value, dirty]

theorem clean_of_clean (tidy : rule.isDirty ps = false) : rule.clean ps = ps := by
  simp [clean, tidy]

theorem seen_plain (plain : ∀ p ∈ ps, Plain p) (value : rule.seen ps = some val) : chr '\\' ∉ val := by
  simp only [seen, lookup, Option.map_eq_some_iff] at value
  obtain ⟨_, ⟨p, found, rfl⟩, rfl⟩ := value
  exact fun member => (plain p (List.mem_of_find?_eq_some found)).value (List.mem_of_mem_take member)

theorem clean_plain (plain : ∀ p ∈ ps, Plain p) : ∀ p ∈ rule.clean ps, Plain p := by
  cases value : rule.seen ps with
  | none => simpa [clean, isDirty, value] using plain
  | some val =>
    by_cases dirty : rule.dirty val = true
    · rw [clean_of_dirty value dirty]
      exact store_plain plain ⟨rule.keyPlain, rule.fixedPlain val (seen_plain plain value)⟩
    · rwa [clean_of_clean (by simp [isDirty, value, dirty])]

theorem lookup_clean_other (distinct : foldEq rule.key k = false) :
    lookup k (rule.clean ps) = lookup k ps := by
  cases value : rule.seen ps with
  | none => rw [clean_of_clean (by simp [isDirty, value])]
  | some val =>
    by_cases dirty : rule.dirty val = true
    · rw [clean_of_dirty value dirty, lookup_store_other distinct]
    · rw [clean_of_clean (by simp [isDirty, value, dirty])]

theorem seen_clean_other (distinct : foldEq rule.key other.key = false) :
    other.seen (rule.clean ps) = other.seen ps := by
  rw [seen, lookup_clean_other distinct, seen]

theorem isDirty_clean_other (distinct : foldEq rule.key other.key = false) :
    other.isDirty (rule.clean ps) = other.isDirty ps := by
  rw [isDirty, seen_clean_other distinct, isDirty]

theorem repair_clean_other (distinct : foldEq rule.key other.key = false) :
    other.repair (rule.clean ps) = other.repair ps := by
  rw [repair, seen_clean_other distinct, repair]

/-- What becomes of the first match of a block's own key. -/
def outcome (rule : KeyRule) : Option Bytes → Option Bytes
  | none => none
  | some v =>
    if rule.dirty (v.take 511) then
      if rule.fixed (v.take 511) = [] then none else some (rule.fixed (v.take 511))
    else some v

theorem lookup_clean_self : lookup rule.key (rule.clean ps) = rule.outcome (lookup rule.key ps) := by
  cases found : lookup rule.key ps with
  | none => simp [clean, isDirty, seen, found, outcome]
  | some v =>
    have value : rule.seen ps = some (v.take 511) := by simp [seen, found]
    by_cases dirty : rule.dirty (v.take 511) = true
    · rw [clean_of_dirty value dirty]
      by_cases empty : rule.fixed (v.take 511) = []
      · simp [outcome, dirty, empty, lookup_store_empty]
      · simp [outcome, dirty, empty, lookup_store_self empty]
    · rw [clean_of_clean (by simp [isDirty, value, dirty]), found]
      simp [outcome, dirty]

end KeyRule

/-! ### All blocks -/

def cleanAll (rules : List KeyRule) (ps : List Pair) : List Pair :=
  rules.foldl (fun ps rule => rule.clean ps) ps

def dirtyRules (rules : List KeyRule) (ps : List Pair) : List KeyRule := rules.filter (·.isDirty ps)

def Distinct (rules : List KeyRule) : Prop := rules.Pairwise fun a b => foldEq a.key b.key = false

variable {rules : List KeyRule} {rule : KeyRule} {ps : List Pair}

theorem cleanAll_cons : cleanAll (rule :: rules) ps = cleanAll rules (rule.clean ps) := rfl

theorem dirtyRules_cons_dirty (dirty : rule.isDirty ps = true) :
    dirtyRules (rule :: rules) ps = rule :: dirtyRules rules ps :=
  List.filter_cons_of_pos dirty

theorem dirtyRules_cons_clean (tidy : rule.isDirty ps = false) :
    dirtyRules (rule :: rules) ps = dirtyRules rules ps :=
  List.filter_cons_of_neg (by simp [tidy])

theorem userinfoRules_distinct : Distinct userinfoRules := by
  unfold Distinct userinfoRules
  decide +kernel

theorem lookup_cleanAll_other (distinct : ∀ rule ∈ rules, foldEq rule.key k = false) :
    lookup k (cleanAll rules ps) = lookup k ps := by
  induction rules generalizing ps with
  | nil => rfl
  | cons rule rules ih =>
    rw [cleanAll_cons, ih fun r member => distinct r (by simp [member])]
    exact KeyRule.lookup_clean_other (distinct rule (by simp))

/-- The first match of a block's key is the work of that block alone. -/
theorem lookup_cleanAll (distinct : Distinct rules) (member : rule ∈ rules) :
    lookup rule.key (cleanAll rules ps) = rule.outcome (lookup rule.key ps) := by
  induction rules generalizing ps with
  | nil => contradiction
  | cons first rules ih =>
    obtain ⟨apart, rest⟩ := List.pairwise_cons.mp distinct
    rw [cleanAll_cons]
    rcases List.mem_cons.mp member with rfl | member
    · rw [lookup_cleanAll_other fun r later => (foldEq_comm ..).trans (apart r later)]
      exact KeyRule.lookup_clean_self
    · rw [ih rest member, KeyRule.lookup_clean_other (apart rule member)]

theorem dirtyRules_clean (apart : ∀ r ∈ rules, foldEq rule.key r.key = false) :
    dirtyRules rules (rule.clean ps) = dirtyRules rules ps :=
  List.filter_congr fun r member => KeyRule.isDirty_clean_other (apart r member)

theorem cleanAll_of_clean (tidy : dirtyRules rules ps = []) : cleanAll rules ps = ps := by
  induction rules with
  | nil => rfl
  | cons rule rules ih =>
    have clean : rule.isDirty ps = false := by
      cases dirty : rule.isDirty ps with
      | false => rfl
      | true => simp [dirtyRules_cons_dirty dirty] at tidy
    rw [cleanAll_cons, KeyRule.clean_of_clean clean]
    exact ih (dirtyRules_cons_clean clean ▸ tidy)

/-! ### The string -/

/-- One block of the source is one step on the pair list, and rewrites the
string only for a dirty value. -/
theorem applyRule_spec (s : Bytes) (changed : Int) (rule : KeyRule) (room : s.length + 72 < 2047) :
    applyRule 2048 (s, changed) rule =
      if rule.isDirty (pairs s) then (render (rule.clean (pairs s)), 1) else (s, changed) := by
  have read : infoValue s rule.key 512 = rule.seen (pairs s) := infoValue_spec (by decide)
  simp only [applyRule, read]
  cases value : rule.seen (pairs s) with
  | none => simp [KeyRule.isDirty, value]
  | some val =>
    by_cases dirty : rule.dirty val = true
    · have short := rule.short val
      simp only [dirty, if_true, KeyRule.isDirty, value, Option.any_some]
      rw [infoSet_spec (rule.fixedNulFree val) (by omega), KeyRule.clean_of_dirty value dirty]
    · simp [KeyRule.isDirty, value, dirty]

theorem applyRule_pairs (room : s.length + 72 < 2047) :
    pairs (applyRule 2048 (s, changed) rule).1 = rule.clean (pairs s) := by
  rw [applyRule_spec _ _ _ room]
  split
  · exact pairs_render (KeyRule.clean_plain (pairs_plain s))
  · rw [KeyRule.clean_of_clean (by simp_all)]

theorem applyRule_length (s : Bytes) (changed : Int) (rule : KeyRule) (room : s.length + 72 < 2047) :
    (applyRule 2048 (s, changed) rule).1.length ≤ s.length + 72 := by
  rw [applyRule]
  split
  · simp
  · rename_i val read
    split
    · have short := rule.short val
      have grown := infoSet_length_le s rule.key (rule.fixedNulFree val) (by omega)
      dsimp only
      omega
    · simp

theorem applyRules_pairs (room : s.length + 72 * rules.length < 2047) :
    pairs (rules.foldl (applyRule 2048) (s, changed)).1 = cleanAll rules (pairs s) := by
  induction rules generalizing s changed with
  | nil => rfl
  | cons rule rules ih =>
    simp only [List.length_cons] at room
    have grown := applyRule_length s changed rule (by omega)
    rw [List.foldl_cons, ih (by omega), applyRule_pairs (by omega)]
    rfl

/-- The blocks in order: untouched text when no value is dirty, else the text
of the cleaned pairs. -/
theorem applyRules_spec (distinct : Distinct rules) (room : s.length + 72 * rules.length < 2047) :
    rules.foldl (applyRule 2048) (s, changed) =
      if dirtyRules rules (pairs s) = [] then (s, changed)
      else (render (cleanAll rules (pairs s)), 1) := by
  induction rules generalizing s changed with
  | nil => rfl
  | cons rule rules ih =>
    obtain ⟨apart, rest⟩ := List.pairwise_cons.mp distinct
    simp only [List.length_cons] at room
    have step := applyRule_spec s changed rule (by omega)
    have grown := applyRule_length s changed rule (by omega)
    rw [List.foldl_cons]
    by_cases dirty : rule.isDirty (pairs s) = true
    · rw [if_pos dirty] at step
      rw [step] at grown ⊢
      have meaning : pairs (render (rule.clean (pairs s))) = rule.clean (pairs s) :=
        pairs_render (KeyRule.clean_plain (pairs_plain s))
      rw [ih rest (by dsimp only at grown; omega), meaning, dirtyRules_cons_dirty dirty,
        if_neg (List.cons_ne_nil _ _), cleanAll_cons]
      split
      · rw [cleanAll_of_clean ‹_›]
      · rfl
    · rw [if_neg dirty] at step
      have tidy : rule.isDirty (pairs s) = false := by simpa using dirty
      rw [step, ih rest (by omega), dirtyRules_cons_clean tidy, cleanAll_cons,
        KeyRule.clean_of_clean tidy]

/-! ### SanitizeUserinfo -/

/-- The outcome on a string that fits the engine's limit. -/
theorem sanitizeUserinfo_spec (fits : s.length ≤ 1023) :
    sanitizeUserinfo s 2048 klen =
      if cheatModel s then ⟨-1, s, some ((lit "cheating detected").take (klen - 1))⟩
      else if dirtyRules userinfoRules (pairs s) = [] then ⟨0, s, none⟩
      else ⟨1, render (cleanAll userinfoRules (pairs s)), none⟩ := by
  have blocks : userinfoRules.length = 6 := rfl
  rw [sanitizeUserinfo, applyRules_spec userinfoRules_distinct (by omega)]
  by_cases tidy : dirtyRules userinfoRules (pairs s) = [] <;> simp only [tidy, if_true, if_false]

theorem sanitizeUserinfo_pairs (fits : s.length ≤ 1023) (kept : (sanitizeUserinfo s 2048 klen).rc ≠ -1) :
    pairs (sanitizeUserinfo s 2048 klen).ui = cleanAll userinfoRules (pairs s) := by
  have blocks : userinfoRules.length = 6 := rfl
  unfold sanitizeUserinfo at kept ⊢
  split
  · simp_all
  · exact applyRules_pairs (by omega)

end JaplusProxy.Userinfo
