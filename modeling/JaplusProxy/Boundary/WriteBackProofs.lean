import JaplusProxy.Boundary.VmMain
import JaplusProxy.Userinfo.GrowthProofs

/-! What vmMain writes back: the pairs of the clean keys in their order, then the
repairs. Repairs can be longer than what they replace, and the room for them is
that of the 2048-byte buffer. -/
namespace JaplusProxy.Userinfo
open CString

/-! ### The cleaned pairs -/

/-- The pairs that no dirty key claims. -/
def kept (rules : List KeyRule) (ps : List Pair) : List Pair :=
  ps.filter fun p => (dirtyRules rules ps).all fun rule => !foldEq p.1 rule.key

def added (rules : List KeyRule) (ps : List Pair) : List Pair :=
  (dirtyRules rules ps).flatMap fun rule => rule.repair ps

variable {rules : List KeyRule} {rule : KeyRule} {ps : List Pair}

theorem repair_key (member : p ∈ rule.repair ps) : p.1 = rule.key := by
  unfold KeyRule.repair at member
  split at member
  · split at member
    · contradiction
    · rw [List.mem_singleton.mp member]
  · contradiction

theorem added_clean (apart : ∀ r ∈ rules, foldEq rule.key r.key = false) :
    added rules (rule.clean ps) = added rules ps := by
  rw [added, dirtyRules_clean apart, added]
  apply List.flatMap_congr
  intro r member
  exact KeyRule.repair_clean_other (apart r (List.mem_of_mem_filter member))

/-- A repair is claimed by no other key. -/
theorem kept_repair (apart : ∀ r ∈ rules, foldEq rule.key r.key = false) :
    (rule.repair ps).filter (fun p => (dirtyRules rules ps).all fun r => !foldEq p.1 r.key) =
      rule.repair ps := by
  apply List.filter_eq_self.mpr
  intro p member
  apply List.all_eq_true.mpr
  intro r dirty
  rw [repair_key member, apart r (List.mem_of_mem_filter dirty)]
  rfl

/-- The blocks together: one filter, and the repairs in the order of the blocks. -/
theorem cleanAll_eq (distinct : Distinct rules) : cleanAll rules ps = kept rules ps ++ added rules ps := by
  induction rules generalizing ps with
  | nil => simp [cleanAll, kept, added, dirtyRules]
  | cons rule rules ih =>
    obtain ⟨apart, rest⟩ := List.pairwise_cons.mp distinct
    rw [cleanAll_cons, ih rest, added_clean apart]
    cases dirty : rule.isDirty ps with
    | false =>
      rw [KeyRule.clean_of_clean dirty, kept, added, kept, added, dirtyRules_cons_clean dirty]
    | true =>
      have claimed : kept (rule :: rules) ps =
          (erase rule.key ps).filter fun p => (dirtyRules rules ps).all fun r => !foldEq p.1 r.key := by
        rw [kept, dirtyRules_cons_dirty dirty, erase, List.filter_filter]
        apply List.filter_congr
        intro p _
        by_cases same : foldEq p.1 rule.key = true <;> simp [same]
      rw [claimed, kept, dirtyRules_clean apart, KeyRule.clean, if_pos dirty, List.filter_append,
        kept_repair apart, added, added, dirtyRules_cons_dirty dirty, List.flatMap_cons, List.append_assoc]

theorem cleanAll_plain (plain : ∀ p ∈ ps, Plain p) : ∀ p ∈ cleanAll rules ps, Plain p := by
  induction rules generalizing ps with
  | nil => exact plain
  | cons rule rules ih => exact ih (KeyRule.clean_plain plain)

theorem cleanAll_nulFree (nulFree : 0 ∉ s) : 0 ∉ render (cleanAll userinfoRules (pairs s)) := by
  have keys : ∀ rule ∈ userinfoRules, 0 ∉ rule.key := by decide +kernel
  rw [cleanAll_eq userinfoRules_distinct, render_append, List.mem_append, not_or]
  constructor
  · intro zero
    obtain ⟨p, member, inside⟩ := List.mem_flatMap.mp zero
    exact nulFree (pairs_subset (List.mem_of_mem_filter member) inside)
  · intro zero
    obtain ⟨p, member, inside⟩ := List.mem_flatMap.mp zero
    obtain ⟨rule, dirty, repaired⟩ := List.mem_flatMap.mp member
    have key := keys rule (List.mem_of_mem_filter dirty)
    unfold KeyRule.repair at repaired
    split at repaired
    · rename_i val _
      split at repaired
      · contradiction
      · obtain rfl := List.mem_singleton.mp repaired
        have separator : ¬ 0 = chr '\\' := by decide
        simp [renderPair, separator, key, rule.fixedNulFree val] at inside
    · contradiction

end JaplusProxy.Userinfo

namespace JaplusProxy.Boundary
open CString Userinfo

/-! ### The write-back -/

/-- The whole string reaches the sanitizer. -/
theorem engineGetUserinfo_whole (fits : (e.userinfo client).bytes.length ≤ 1023) :
    engineGetUserinfo e client 2048 = (e.userinfo client).bytes :=
  List.take_of_length_le (by omega)

theorem userinfoLooksEvil_iff : userinfoLooksEvil s = false ↔ s ≠ [] ∧ s.length ≤ 1023 := by
  simp only [userinfoLooksEvil, Bool.or_eq_false_iff, beq_eq_false_iff_ne, ne_eq,
    List.length_eq_zero_iff, decide_eq_false_iff_not, not_le, Nat.lt_succ_iff]

/-- The cut at 2047 bytes hides no overflow attempt. -/
theorem userinfoLooksEvil_read :
    userinfoLooksEvil (engineGetUserinfo e client 2048) = userinfoLooksEvil (e.userinfo client).bytes := by
  have read : engineGetUserinfo e client 2048 = (e.userinfo client).bytes.take 2047 := rfl
  rw [Bool.eq_iff_iff, ← not_iff_not, Bool.not_eq_true, Bool.not_eq_true, userinfoLooksEvil_iff,
    userinfoLooksEvil_iff, read, List.length_take, ne_eq, List.take_eq_nil_iff]
  have cut : min 2047 (e.userinfo client).bytes.length ≤ 1023 ↔ (e.userinfo client).bytes.length ≤ 1023 := by
    omega
  simp [cut]

theorem userinfoChanged_evil (evil : userinfoLooksEvil (e.userinfo client).bytes = true) :
    userinfoChanged e client = .block e (proxySyscall e (.dropClient client (lit "bad userinfo"))).issued := by
  simp only [userinfoChanged, userinfoLooksEvil_read, evil, if_true]

/-- An accepted userinfo by its pairs: kicked, passed on as it is, or rewritten. -/
theorem userinfoChanged_spec (accepted : userinfoLooksEvil (e.userinfo client).bytes = false) :
    userinfoChanged e client =
      if cheatModel (e.userinfo client).bytes then .block e (Commands.punish e client)
      else if dirtyRules userinfoRules (pairs (e.userinfo client).bytes) = [] then .forward e []
      else
        let ui := render (cleanAll userinfoRules (pairs (e.userinfo client).bytes))
        .forward (e.withUserinfo client ui) [.setUserinfo client ui] := by
  obtain ⟨_, fits⟩ := userinfoLooksEvil_iff.mp accepted
  simp only [userinfoChanged, engineGetUserinfo_whole fits, accepted, sanitizeUserinfo_spec fits]
  by_cases cheat : cheatModel (e.userinfo client).bytes = true
  · simp [cheat]
  · by_cases tidy : dirtyRules userinfoRules (pairs (e.userinfo client).bytes) = []
    · simp [cheat, tidy]
    · simp [cheat, tidy, Engine.call]

/-- The engine stores a write-back of this size whole. -/
theorem withUserinfo_whole (e : Engine) (client : Int) (nulFree : 0 ∉ text) (fits : text.length ≤ 1023) :
    ((e.withUserinfo client text).userinfo client).bytes = text := by
  rw [Engine.withUserinfo_self, List.take_of_length_le fits, CStr.bytes_ofBytes nulFree]

/-- A kick writes nothing back. -/
theorem punish_eq (e : Engine) (client : Int) : Commands.punish e client =
    [.sendServerCommand (-1) (some (lit "chat \"^3(Anti-Cheat system) cheating detected^7\"")),
      .dropClient client (lit "(Anti-Cheat system) cheating detected")] := rfl

/-- The dirty keys do not grow past the room that the string leaves. What follows its last
complete pair is dropped and counts as room. -/
def WriteBackFits (ui : Bytes) : Prop :=
  cheatModel ui = true ∨
    (ui.length : Int) + (Replacement.all.map (·.growth (pairs ui))).sum ≤ 1023 + (loose ui).length

/-- With thirty-three bytes to spare the dirty keys may grow as they like. -/
theorem writeBackFits_of_short (short : ui.length ≤ 990) : WriteBackFits ui := by
  have grown := Replacement.growths_le (pairs ui)
  exact .inr (by omega)

/-- Every write-back to the engine has at most 1023 bytes, exactly when the string and the
growth of its dirty keys leave that room. -/
theorem vmMain_writeBack_iff (accepted : userinfoLooksEvil (e.userinfo client).bytes = false) :
    (∀ passage, vmMain true e (.clientUserinfoChanged client) = some passage →
        ∀ text, .setUserinfo client text ∈ passage.issued → text.length ≤ 1023) ↔
      WriteBackFits (e.userinfo client).bytes := by
  simp only [vmMain, Bool.true_eq_false, if_false, Option.some.injEq, forall_eq',
    userinfoChanged_spec accepted, WriteBackFits]
  by_cases cheat : cheatModel (e.userinfo client).bytes = true
  · simp [cheat, Passage.block, punish_eq]
  · by_cases tidy : dirtyRules userinfoRules (pairs (e.userinfo client).bytes) = []
    · have fits := (userinfoLooksEvil_iff.mp accepted).2
      have still := Replacement.growth_of_clean tidy
      have room : ((e.userinfo client).bytes.length : Int) +
          (Replacement.all.map (·.growth (pairs (e.userinfo client).bytes))).sum ≤
            1023 + (loose (e.userinfo client).bytes).length := by omega
      simp [cheat, tidy, Passage.forward, room]
    · have length := cleaned_length (e.userinfo client).bytes
      have bound : (render (cleanAll userinfoRules (pairs (e.userinfo client).bytes))).length ≤ 1023 ↔
          ((e.userinfo client).bytes.length : Int) +
            (Replacement.all.map (·.growth (pairs (e.userinfo client).bytes))).sum ≤
              1023 + (loose (e.userinfo client).bytes).length := by omega
      simp [cheat, tidy, Passage.forward, bound]

/-- Holds one userinfo for every client. -/
def holding (ui : CStr) : Engine := { Engine.executing [] with userinfo := fun _ => ui }

def rancor : CStr := ⟨lit "\\model\\rancor", by decide⟩

theorem vmMain_writeBack_rancor :
    ∃ passage, vmMain true (holding rancor) (.clientUserinfoChanged 0) = some passage ∧
      ∃ text, .setUserinfo 0 text ∈ passage.issued ∧ text.length ≤ 1023 := by
  have bound : ∀ passage, vmMain true (holding rancor) (.clientUserinfoChanged 0) = some passage → ∀ text, _ → _ :=
    (vmMain_writeBack_iff (by decide +kernel)).mpr (.inr (by decide +kernel))
  have written : .setUserinfo 0 (sanitizeUserinfo rancor.bytes 2048 128).ui ∈
      (userinfoChanged (holding rancor) 0).issued := by decide +kernel
  exact ⟨_, rfl, _, written, bound _ rfl _ written⟩

/-- 1023 bytes, of which fourteen are a pair that grows to thirty-five. -/
def swollen : CStr :=
  ⟨lit "\\forcepowers\\0\\x\\" ++ List.replicate 1006 (chr 'a'), by decide +kernel⟩

theorem vmMain_writeBack_swollen : userinfoLooksEvil swollen.bytes = false ∧
    ∃ passage, vmMain true (holding swollen) (.clientUserinfoChanged 0) = some passage ∧
      ∃ text, .setUserinfo 0 text ∈ passage.issued ∧ 1023 < text.length := by
  refine ⟨by decide +kernel, _, rfl, (sanitizeUserinfo swollen.bytes 2048 128).ui, ?_, by decide +kernel⟩
  decide +kernel

end JaplusProxy.Boundary
