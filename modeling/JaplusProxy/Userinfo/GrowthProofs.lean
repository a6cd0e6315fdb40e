import Mathlib.Algebra.Ring.Int.Defs
import JaplusProxy.Userinfo.NameProofs
import JaplusProxy.Userinfo.SanitizeProofs

/-! By how much the sanitizer makes a userinfo longer. A dirty key gives up the bytes of
all its pairs and gets those of one replacement, whose size depends on the old value alone. -/
namespace JaplusProxy.Userinfo
open CString

/-- All pairs of the key, in any letter case. -/
def claimed (key : Bytes) (ps : List Pair) : List Pair := ps.filter fun p => foldEq p.1 key

/-- What follows the last complete pair. -/
def loose (s : Bytes) : Bytes := s.drop (render (pairs s)).length

/-- A block of the sanitizer, with the bytes that the new pair takes for a dirty value. -/
structure Replacement where
  rule : KeyRule
  size : Bytes → Nat
  sized : ∀ val, size val = if rule.fixed val = [] then 0 else rule.key.length + (rule.fixed val).length + 2

namespace Replacement

/-- What the block adds to the text of these pairs. -/
def growth (r : Replacement) (ps : List Pair) : Int :=
  match r.rule.seen ps with
  | some val => if r.rule.dirty val then r.size val - (render (claimed r.rule.key ps)).length else 0
  | none => 0

/-- What the cleaner leaves of a name, or the seven letters of the fallback. -/
def nameSize (val : Bytes) : Nat := if survivors val = [] then 7 else min 63 (survivors val).length

theorem cleanName_length (val : Bytes) : (cleanName val 512).length = nameSize val := by
  rw [cleanName_eq, leftover, nameSize]
  by_cases none : survivors val = []
  · rw [none]
    rfl
  · rw [if_neg (by simp [none]), if_neg none, List.length_take]

def model : Replacement := ⟨modelRule, fun _ => 11, fun _ => rfl⟩
def forcepowers : Replacement := ⟨forcepowersRule, fun _ => 35, fun _ => rfl⟩
def name : Replacement where
  rule := nameRule
  size val := 6 + nameSize val
  sized val := by
    have four : nameRule.key.length = 4 := rfl
    have fixed : nameRule.fixed val = cleanName val 512 := rfl
    rw [fixed, if_neg (cleanName_ne_nil (by decide)), cleanName_length, four]
    omega
def siegeclass : Replacement := ⟨siegeclassRule, fun _ => 0, fun _ => rfl⟩
def saber1 : Replacement := ⟨saber1Rule, fun _ => 0, fun _ => rfl⟩
def saber2 : Replacement := ⟨saber2Rule, fun _ => 0, fun _ => rfl⟩

def all : List Replacement := [model, forcepowers, name, siegeclass, saber1, saber2]

theorem all_rules : all.map rule = userinfoRules := rfl

end Replacement

/-! ### One block -/

variable {ps : List Pair}

theorem render_claimed_erase (key : Bytes) (ps : List Pair) :
    (render (claimed key ps)).length + (render (erase key ps)).length = (render ps).length := by
  induction ps with
  | nil => rfl
  | cons p ps ih =>
    simp only [claimed, erase, Bool.not_eq_true, Bool.decide_eq_false] at ih
    by_cases same : foldEq p.1 key = true
    · simp [claimed, erase, same]
      omega
    · simp [claimed, erase, same]
      omega

theorem claimed_erase_other (other : foldEq key k = false) : claimed k (erase key ps) = claimed k ps := by
  rw [claimed, erase, List.filter_filter, claimed]
  apply List.filter_congr
  intro p _
  by_cases same : foldEq p.1 key = true
  · simp [foldEq_apart same other]
  · simp [same]

namespace Replacement
variable {r other : Replacement} {rs : List Replacement}

theorem repair_length (value : r.rule.seen ps = some val) : (render (r.rule.repair ps)).length = r.size val := by
  simp only [KeyRule.repair, value, r.sized]
  split
  · rfl
  · rw [render_cons, render_nil, List.append_nil, renderPair_length]

/-- One block changes the length by its growth. -/
theorem clean_length : ((render (r.rule.clean ps)).length : Int) = (render ps).length + r.growth ps := by
  cases value : r.rule.seen ps with
  | none =>
    rw [KeyRule.clean_of_clean (by simp [KeyRule.isDirty, value])]
    simp [growth, value]
  | some val =>
    by_cases dirty : r.rule.dirty val = true
    · have split := render_claimed_erase r.rule.key ps
      have cleaned : r.rule.clean ps = erase r.rule.key ps ++ r.rule.repair ps :=
        if_pos (by simp [KeyRule.isDirty, value, dirty])
      rw [cleaned, render_append, List.length_append, repair_length value]
      simp only [growth, value, dirty, if_true]
      omega
    · rw [KeyRule.clean_of_clean (by simp [KeyRule.isDirty, value, dirty])]
      simp [growth, value, dirty]

theorem claimed_clean_other (apart : foldEq r.rule.key k = false) :
    claimed k (r.rule.clean ps) = claimed k ps := by
  rw [KeyRule.clean]
  split
  · have foreign : claimed k (r.rule.repair ps) = [] := by
      rw [KeyRule.repair]
      split
      · split <;> simp [claimed, apart]
      · rfl
    rw [claimed, List.filter_append, ← claimed, ← claimed, foreign, List.append_nil, claimed_erase_other apart]
  · rfl

theorem growth_clean_other (apart : foldEq r.rule.key other.rule.key = false) :
    other.growth (r.rule.clean ps) = other.growth ps := by
  rw [growth, KeyRule.seen_clean_other apart, claimed_clean_other apart, growth]

/-! ### All blocks -/

/-- No block sees what another one did, so that the growths add up. -/
theorem cleanAll_length (distinct : Distinct (rs.map rule)) :
    ((render (cleanAll (rs.map rule) ps)).length : Int) = (render ps).length + (rs.map (growth · ps)).sum := by
  induction rs generalizing ps with
  | nil => simp [cleanAll]
  | cons r rs ih =>
    obtain ⟨apart, rest⟩ := List.pairwise_cons.mp distinct
    have unseen : rs.map (growth · (r.rule.clean ps)) = rs.map (growth · ps) :=
      List.map_congr_left fun q member => growth_clean_other (apart q.rule (List.mem_map_of_mem member))
    rw [List.map_cons, cleanAll_cons, ih rest, unseen, clean_length, List.map_cons, List.sum_cons, Int.add_assoc]

theorem growth_of_clean (tidy : dirtyRules userinfoRules ps = []) : (all.map (growth · ps)).sum = 0 := by
  have length : ((render (cleanAll (all.map rule) ps)).length : Int) = _ := cleanAll_length userinfoRules_distinct
  rw [all_rules, cleanAll_of_clean tidy] at length
  omega

end Replacement

theorem length_loose (s : Bytes) : s.length = (render (pairs s)).length + (loose s).length := by
  have initial := render_pairs_length_le s
  rw [loose, List.length_drop]
  omega

/-- The length of the cleaned text, from the input. -/
theorem cleaned_length (s : Bytes) : ((render (cleanAll userinfoRules (pairs s))).length : Int) =
    s.length - (loose s).length + (Replacement.all.map (·.growth (pairs s))).sum := by
  have length : ((render (cleanAll (Replacement.all.map Replacement.rule) (pairs s))).length : Int) = _ :=
    Replacement.cleanAll_length userinfoRules_distinct
  have whole := length_loose s
  rw [Replacement.all_rules] at length
  omega

/-! ### Bounds -/

theorem stripped_length_le (s : Bytes) : (stripped s).length ≤ s.length := by
  induction s with
  | nil => rfl
  | cons c s ih =>
    rw [stripped, List.length_cons]
    split
    · omega
    · rw [List.length_cons]
      omega

theorem survivors_length_le (s : Bytes) : (survivors s).length ≤ s.length :=
  (stripped_length_le _).trans (List.dropWhile_sublist _).length_le

theorem foldEq_length (same : foldEq a b = true) : a.length = b.length := by
  simpa using congrArg List.length (foldEq_iff.mp same)

namespace Replacement
variable {r : Replacement}

theorem sublist_render (member : p ∈ ps) : (renderPair p).Sublist (render ps) := by
  rw [render, List.flatMap_def]
  exact List.sublist_flatten_of_mem (List.mem_map_of_mem member)

/-- The pair that is read goes, with its key and at least the bytes that are seen of its value. -/
theorem seen_claimed (value : r.rule.seen ps = some val) :
    r.rule.key.length + val.length + 2 ≤ (render (claimed r.rule.key ps)).length := by
  obtain ⟨v, found, rfl⟩ := Option.map_eq_some_iff.mp value
  obtain ⟨p, member, same, rfl⟩ := lookup_mem found
  have inside : (renderPair p).Sublist (render (claimed r.rule.key ps)) :=
    sublist_render (List.mem_filter_of_mem member same)
  have whole := inside.length_le
  rw [renderPair_length, foldEq_length same] at whole
  have cut := List.length_take_le 511 p.2
  have := List.length_take_le' 511 p.2
  omega

theorem growth_le (slack : Nat) (bound : ∀ val, r.size val ≤ r.rule.key.length + val.length + 2 + slack) :
    r.growth ps ≤ slack := by
  rw [growth]
  split
  · rename_i val value
    have gone := seen_claimed value
    have new := bound val
    split <;> omega
  · omega

/-- `kyle` is four bytes more than no value, the new force powers twenty-two, and the
fallback name seven. No other name gets longer. -/
theorem growths_le (ps : List Pair) : (all.map (growth · ps)).sum ≤ 33 := by
  have kyle : model.growth ps ≤ (4 : Nat) := growth_le 4 fun val => by
    have five : model.rule.key.length = 5 := rfl
    change 11 ≤ _
    omega
  have powers : forcepowers.growth ps ≤ (22 : Nat) := growth_le 22 fun val => by
    have eleven : forcepowers.rule.key.length = 11 := rfl
    change 35 ≤ _
    omega
  have named : name.growth ps ≤ (7 : Nat) := growth_le 7 fun val => by
    have four : name.rule.key.length = 4 := rfl
    have kept := survivors_length_le val
    change 6 + nameSize val ≤ _
    rw [nameSize]
    split <;> omega
  have removed (r : Replacement) (nothing : ∀ val, r.size val = 0) : r.growth ps ≤ (0 : Nat) :=
    growth_le 0 fun val => by
      rw [nothing]
      omega
  have siege := removed siegeclass fun _ => rfl
  have first := removed saber1 fun _ => rfl
  have second := removed saber2 fun _ => rfl
  simp only [all, List.map_cons, List.map_nil, List.sum_cons, List.sum_nil]
  omega

end Replacement

end JaplusProxy.Userinfo
