import Mathlib.Data.List.Nodup

/-! Python dictionaries: their items in the order of insertion, each key once. -/

variable {κ ν : Type}

structure PyDict (κ ν : Type) where
  items : List (κ × ν)
  once : (items.map Prod.fst).Nodup
  deriving DecidableEq

namespace PyDict

def empty : PyDict κ ν := ⟨[], List.nodup_nil⟩

variable [DecidableEq κ]

/-- What the items have for a key. -/
def find? (items : List (κ × ν)) (key : κ) : Option ν := items.lookup key

/-- `d.get(key)` -/
def get? (d : PyDict κ ν) (key : κ) : Option ν := d.items.lookup key

def setItem (key : κ) (value : ν) : List (κ × ν) → List (κ × ν)
  | [] => [(key, value)]
  | (k, v) :: rest => if k = key then (key, value) :: rest else (k, v) :: setItem key value rest

theorem setItem_keys (key : κ) (value : ν) (items : List (κ × ν)) (k : κ) :
    k ∈ (setItem key value items).map Prod.fst ↔ k = key ∨ k ∈ items.map Prod.fst := by
  induction items with
  | nil => simp [setItem]
  | cons entry rest ih =>
    obtain ⟨k', v⟩ := entry
    rw [setItem]
    split
    · rename_i same
      subst same
      simp
    · simp only [List.map_cons, List.mem_cons, ih]
      exact or_left_comm

theorem setItem_once {items : List (κ × ν)} (once : (items.map Prod.fst).Nodup) (key : κ) (value : ν) :
    ((setItem key value items).map Prod.fst).Nodup := by
  induction items with
  | nil => exact List.nodup_singleton key
  | cons entry rest ih =>
    obtain ⟨k, v⟩ := entry
    rw [List.map_cons, List.nodup_cons] at once
    rw [setItem]
    split
    · rename_i same
      subst same
      exact List.nodup_cons.mpr once
    · rename_i other
      rw [List.map_cons, List.nodup_cons, setItem_keys]
      exact ⟨fun member => member.elim other once.1, ih once.2⟩

/-- `d[key] = value`; a key that is there keeps its place. -/
def set (d : PyDict κ ν) (key : κ) (value : ν) : PyDict κ ν := ⟨setItem key value d.items, setItem_once d.once key value⟩

/-- `d.update(other)` -/
def update (d other : PyDict κ ν) : PyDict κ ν := other.items.foldl (fun d entry => d.set entry.1 entry.2) d

@[simp] theorem get?_empty (key : κ) : (empty : PyDict κ ν).get? key = none := rfl

theorem lookup_cons (entry : κ × ν) (rest : List (κ × ν)) (key : κ) :
    (entry :: rest).lookup key = if key = entry.1 then some entry.2 else rest.lookup key := by
  obtain ⟨k, v⟩ := entry
  rw [List.lookup_cons]
  by_cases here : key = k
  · simp [here]
  · rw [beq_false_of_ne here, if_neg here]

theorem lookup_setItem (key : κ) (value : ν) (items : List (κ × ν)) (k : κ) :
    (setItem key value items).lookup k = if k = key then some value else items.lookup k := by
  induction items with
  | nil => exact lookup_cons (key, value) [] k
  | cons entry rest ih =>
    obtain ⟨k', v⟩ := entry
    rw [setItem]
    split
    · rename_i first
      subst first
      rw [lookup_cons, lookup_cons]
      split <;> rfl
    · rename_i other
      rw [lookup_cons, lookup_cons, ih]
      by_cases here : k = k'
      · subst here
        simp [other]
      · simp [here]

theorem get?_set (d : PyDict κ ν) (key : κ) (value : ν) (k : κ) :
    (d.set key value).get? k = if k = key then some value else d.get? k := lookup_setItem key value d.items k

@[simp] theorem get?_set_self (d : PyDict κ ν) (key : κ) (value : ν) : (d.set key value).get? key = some value := by
  rw [get?_set, if_pos rfl]

theorem get?_set_other (d : PyDict κ ν) (value : ν) (other : k ≠ key) : (d.set key value).get? k = d.get? k := by
  rw [get?_set, if_neg other]

theorem lookup_eq_some {items : List (κ × ν)} (once : (items.map Prod.fst).Nodup) :
    items.lookup key = some value ↔ (key, value) ∈ items := by
  induction items with
  | nil => simp
  | cons entry rest ih =>
    obtain ⟨k, v⟩ := entry
    rw [List.map_cons, List.nodup_cons] at once
    rw [lookup_cons]
    split
    · rename_i here
      subst here
      have absent : (key, value) ∉ rest := fun member => once.1 (List.mem_map.mpr ⟨_, member, rfl⟩)
      simp [absent, eq_comm]
    · rename_i other
      simp [other, ih once.2]

omit [DecidableEq κ] in
theorem once_split {front back : List (κ × ν)} (once : ((front ++ (key, value) :: back).map Prod.fst).Nodup) :
    (front.map Prod.fst).Nodup ∧ key ∉ front.map Prod.fst := by
  rw [List.map_append, List.map_cons, List.nodup_append] at once
  exact ⟨once.1, fun member => once.2.2 key member key List.mem_cons_self rfl⟩

theorem find?_none {items : List (κ × ν)} (absent : key ∉ items.map Prod.fst) : find? items key = none := by
  rw [find?, List.lookup_eq_none_iff]
  exact fun item member => bne_iff_ne.mpr fun same => absent (List.mem_map.mpr ⟨item, member, same.symm⟩)

theorem mem_of_find? {items : List (κ × ν)} (found : find? items key = some value) : (key, value) ∈ items := by
  induction items with
  | nil => cases found
  | cons item items ih =>
    rw [find?, lookup_cons] at found
    split at found
    · rename_i here
      rw [here, ← Option.some.inj found]
      exact List.mem_cons_self
    · exact List.mem_cons_of_mem _ (ih found)

theorem find?_some {items : List (κ × ν)} (member : key ∈ items.map Prod.fst) : ∃ value, find? items key = some value := by
  rw [← Option.ne_none_iff_exists', find?, ne_eq, List.lookup_eq_none_iff]
  obtain ⟨item, member, same⟩ := List.mem_map.mp member
  exact fun none => bne_iff_ne.mp (none item member) same.symm

theorem find?_append (front back : List (κ × ν)) (key : κ) :
    find? (front ++ back) key = (find? front key).or (find? back key) := List.lookup_append ..

/-- The order of the items is of no account. -/
theorem find?_perm {items order : List (κ × ν)} (once : (items.map Prod.fst).Nodup) (perm : order.Perm items) :
    find? order = find? items := by
  have once' : (order.map Prod.fst).Nodup := (perm.map _).nodup_iff.mpr once
  funext key
  refine Option.ext fun value => ?_
  rw [find?, find?, lookup_eq_some once', lookup_eq_some once, perm.mem_iff]

theorem find?_concat {items : List (κ × ν)} (absent : key ∉ items.map Prod.fst) (value : ν) :
    find? (items ++ [(key, value)]) = fun k => if k = key then some value else find? items k := by
  funext k
  have last : find? [(key, value)] k = if k = key then some value else none := lookup_cons (key, value) [] k
  rw [find?_append, last]
  split
  · rename_i here
    rw [here, find?_none absent]
    rfl
  · simp

theorem get?_eq_some {d : PyDict κ ν} : d.get? key = some value ↔ (key, value) ∈ d.items := lookup_eq_some d.once

/-- What was updated has the new value where there is one. -/
theorem get?_update (d other : PyDict κ ν) (key : κ) : (d.update other).get? key = (other.get? key).or (d.get? key) := by
  obtain ⟨items, once⟩ := other
  induction items generalizing d with
  | nil => simp [update, get?]
  | cons entry rest ih =>
    obtain ⟨k, v⟩ := entry
    rw [List.map_cons, List.nodup_cons] at once
    have rest := ih (d.set k v) once.2
    simp only [update, List.foldl_cons, get?, lookup_cons] at rest ⊢
    rw [rest]
    by_cases here : key = k
    · subst here
      have absent := List.lookup_eq_none_iff.mpr fun entry member => bne_iff_ne.mpr fun same =>
        once.1 (List.mem_map.mpr ⟨entry, member, same.symm⟩)
      simp [absent, lookup_setItem, set]
    · simp [here, lookup_setItem, set]

theorem set_known {d : PyDict κ ν} (known : d.get? key = some value) : d.set key value = d := by
  obtain ⟨items, once⟩ := d
  simp only [set, get?, mk.injEq] at known ⊢
  induction items with
  | nil => cases known
  | cons entry rest ih =>
    obtain ⟨k, v⟩ := entry
    rw [List.map_cons, List.nodup_cons] at once
    rw [lookup_cons] at known
    rw [setItem]
    by_cases here : key = k
    · subst here
      rw [if_pos rfl] at known
      obtain rfl : v = value := Option.some.inj known
      exact if_pos rfl
    · rw [if_neg here] at known
      rw [if_neg (Ne.symm here), ih once.2 known]

/-- Nothing new. -/
theorem update_known {d other : PyDict κ ν}
    (known : ∀ key value, (key, value) ∈ other.items → d.get? key = some value) : d.update other = d := by
  obtain ⟨items, once⟩ := other
  simp only [update] at known ⊢
  clear once
  induction items with
  | nil => rfl
  | cons entry rest ih =>
    rw [List.foldl_cons, set_known (known _ _ (.head _))]
    exact ih fun key value member => known key value (.tail _ member)

end PyDict
