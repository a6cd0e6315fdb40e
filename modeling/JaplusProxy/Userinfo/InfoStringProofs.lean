import JaplusProxy.Userinfo.InfoString

/-! The two helpers implement a key/value list whose keys ignore ASCII case.
`pairs` is the meaning of an info string, `render` its text; a key without a
value at the end of the string belongs to no pair. -/
namespace JaplusProxy.Userinfo
open CString

abbrev Pair := Bytes × Bytes

def pairUp : List Bytes → List Pair
  | k :: v :: rest => (k, v) :: pairUp rest
  | _ => []

/-- The complete pairs of an info string. -/
def pairs (s : Bytes) : List Pair :=
  if peek s = chr '\\' then pairUp (s.tail.splitOn (chr '\\')) else []

def renderPair (p : Pair) : Bytes := chr '\\' :: p.1 ++ chr '\\' :: p.2

def render (ps : List Pair) : Bytes := ps.flatMap renderPair

@[simp] theorem render_nil : render [] = [] := rfl
@[simp] theorem render_cons : render (p :: ps) = renderPair p ++ render ps := rfl

theorem render_append (ps qs : List Pair) : render (ps ++ qs) = render ps ++ render qs :=
  List.flatMap_append

/-- A pair whose text reads back as itself. -/
structure Plain (p : Pair) : Prop where
  key : chr '\\' ∉ p.1
  value : chr '\\' ∉ p.2

@[simp] theorem pairs_nil : pairs [] = [] := by decide

theorem pairs_other (other : peek s ≠ chr '\\') : pairs s = [] := if_neg other

/-- One pair, up to the next backslash or the end of the string. -/
theorem pairs_renderPair (plain : Plain p) (stop : rest = [] ∨ peek rest = chr '\\') :
    pairs (renderPair p ++ rest) = p :: pairs rest := by
  obtain ⟨k, v⟩ := p
  have key : (k ++ chr '\\' :: (v ++ rest)).splitOn (chr '\\') = k :: (v ++ rest).splitOn (chr '\\') :=
    List.splitOn_append_cons_self_of_not_mem plain.key _
  have unfolded : pairs (renderPair (k, v) ++ rest) = pairUp (k :: (v ++ rest).splitOn (chr '\\')) := by
    simp only [pairs, renderPair, List.cons_append, List.append_assoc, peek_cons, if_true,
      List.tail_cons, key]
  rw [unfolded]
  rcases stop with rfl | stop
  · simp [List.splitOn_eq_singleton plain.value, pairUp]
  · cases rest with
    | nil => simp [List.splitOn_eq_singleton plain.value, pairUp]
    | cons c rest =>
      obtain rfl : c = chr '\\' := stop
      rw [List.splitOn_append_cons_self_of_not_mem plain.value]
      simp [pairUp, pairs]

theorem pairs_render (plain : ∀ p ∈ ps, Plain p) : pairs (render ps) = ps := by
  induction ps with
  | nil => exact pairs_nil
  | cons p ps ih =>
    have stop : render ps = [] ∨ peek (render ps) = chr '\\' := by
      cases ps <;> simp [renderPair]
    rw [render_cons, pairs_renderPair (plain p (by simp)) stop,
      ih fun q member => plain q (by simp [member])]

/-! ### Cursor -/

/-- What a loop knows at a complete pair. -/
theorem readPair_some (read : readPair s = some c) :
    s = renderPair (c.key, c.value) ++ c.vend ∧ Plain (c.key, c.value) ∧
      (c.vend = [] ∨ peek c.vend = chr '\\') := by
  unfold readPair at read
  split at read
  · rename_i head
    cases s with
    | nil => exact absurd head (by decide)
    | cons b k =>
      obtain rfl : b = chr '\\' := head
      simp only [List.tail_cons] at read
      cases searched : strchr (chr '\\') k with
      | none => simp [searched] at read
      | some kend =>
        obtain ⟨key, v, rfl, rfl, keyFree⟩ := strchr_some searched
        simp only [searched, List.tail_cons, List.length_append, List.length_cons,
          Nat.add_sub_cancel, List.take_left', Option.some.injEq] at read
        cases ended : strchr (chr '\\') v with
        | none =>
          simp only [ended, Option.getD_none, List.length_nil, Nat.sub_zero, List.take_length] at read
          subst c
          exact ⟨by simp [renderPair], ⟨keyFree, strchr_eq_none_iff.mp ended⟩, .inl rfl⟩
        | some vend =>
          obtain ⟨value, rest, rfl, rfl, valueFree⟩ := strchr_some ended
          simp only [ended, Option.getD_some, List.length_append, List.length_cons,
            Nat.add_sub_cancel, List.take_left'] at read
          subst c
          exact ⟨by simp [renderPair], ⟨keyFree, valueFree⟩, .inr rfl⟩
  · contradiction

theorem readPair_none (read : readPair s = none) : pairs s = [] := by
  unfold readPair at read
  split at read
  · rename_i head
    cases searched : strchr (chr '\\') s.tail with
    | none =>
      have single := List.splitOn_eq_singleton (strchr_eq_none_iff.mp searched)
      simp [pairs, head, single, pairUp]
    | some kend => simp [searched] at read
  · exact pairs_other ‹_›

theorem readPair_pairs (read : readPair s = some c) :
    pairs s = (c.key, c.value) :: pairs c.vend := by
  obtain ⟨text, plain, stop⟩ := readPair_some read
  rw [text, pairs_renderPair plain stop]

theorem renderPair_length (p : Pair) : (renderPair p).length = p.1.length + p.2.length + 2 := by
  simp only [renderPair, List.cons_append, List.length_cons, List.length_append]
  omega

theorem readPair_length (read : readPair s = some c) : c.vend.length + 2 ≤ s.length := by
  have := congrArg List.length (readPair_some read).1
  simp only [List.length_append, renderPair_length] at this
  omega

theorem pairs_plain (s : Bytes) : ∀ p ∈ pairs s, Plain p := by
  induction n : s.length using Nat.strong_induction_on generalizing s with
  | _ n ih =>
    cases read : readPair s with
    | none => simp [readPair_none read]
    | some c =>
      have shorter := readPair_length read
      rw [readPair_pairs read]
      intro p member
      rcases List.mem_cons.mp member with rfl | member
      · exact (readPair_some read).2.1
      · exact ih c.vend.length (by omega) c.vend rfl p member

/-- The complete pairs are the front of the string. -/
theorem render_pairs_initial (s : Bytes) : render (pairs s) <+: s := by
  induction n : s.length using Nat.strong_induction_on generalizing s with
  | _ n ih =>
    cases read : readPair s with
    | none => simp [readPair_none read]
    | some c =>
      have shorter := readPair_length read
      obtain ⟨dropped, rest⟩ := ih c.vend.length (by omega) c.vend rfl
      refine ⟨dropped, ?_⟩
      rw [readPair_pairs read, render_cons, List.append_assoc, rest, ← (readPair_some read).1]

theorem render_pairs_length_le (s : Bytes) : (render (pairs s)).length ≤ s.length :=
  (render_pairs_initial s).length_le

theorem pairs_subset (member : p ∈ pairs s) : renderPair p ⊆ s := fun _ inside =>
  (render_pairs_initial s).subset (List.mem_flatMap.mpr ⟨p, member, inside⟩)

theorem pairs_nulFree (s : CStr) (member : p ∈ pairs s.bytes) : 0 ∉ p.2 := fun zero =>
  s.nulFree (pairs_subset member (by simp [renderPair, zero]))

/-! ### Dictionary -/

/-- The value of the first pair with this key, in any letter case. -/
def lookup (key : Bytes) (ps : List Pair) : Option Bytes :=
  (ps.find? fun p => foldEq p.1 key).map Prod.snd

def erase (key : Bytes) (ps : List Pair) : List Pair := ps.filter fun p => ¬ foldEq p.1 key

/-- Drops every pair of the key and appends the new one, if its value is not empty. -/
def store (key value : Bytes) (ps : List Pair) : List Pair :=
  erase key ps ++ if value = [] then [] else [(key, value)]

theorem lookup_mem (found : lookup key ps = some v) : ∃ p ∈ ps, foldEq p.1 key = true ∧ p.2 = v := by
  obtain ⟨p, first, rfl⟩ := Option.map_eq_some_iff.mp found
  exact ⟨p, List.mem_of_find?_eq_some first, by simpa using List.find?_some first, rfl⟩

theorem lookup_erase_self : lookup key (erase key ps) = none := by
  simp [lookup, erase, List.find?_eq_none]

theorem lookup_erase_other (other : foldEq key k = false) : lookup k (erase key ps) = lookup k ps := by
  induction ps with
  | nil => rfl
  | cons p ps ih =>
    by_cases erased : foldEq p.1 key = true
    · have skipped : foldEq p.1 k = false := foldEq_apart erased other
      simpa [erase, erased, lookup, skipped] using ih
    · by_cases matched : foldEq p.1 k = true
      · simp [erase, erased, lookup, matched]
      · simpa [erase, erased, lookup, matched] using ih

theorem lookup_append (ps qs : List Pair) : lookup k (ps ++ qs) = (lookup k ps).or (lookup k qs) := by
  simp only [lookup, List.find?_append]
  cases ps.find? fun p => foldEq p.1 k <;> simp

theorem lookup_store_self (filled : value ≠ []) : lookup key (store key value ps) = some value := by
  rw [store, lookup_append, lookup_erase_self]
  simp [filled, lookup]

theorem lookup_store_empty : lookup key (store key [] ps) = none := by
  simp [store, lookup_erase_self]

theorem lookup_store_other (other : foldEq key k = false) : lookup k (store key value ps) = lookup k ps := by
  rw [store, lookup_append, lookup_erase_other other]
  split <;> simp [lookup, other]

theorem store_plain (plain : ∀ p ∈ ps, Plain p) (new : Plain (key, value)) :
    ∀ p ∈ store key value ps, Plain p := by
  intro p member
  rcases List.mem_append.mp member with kept | added
  · exact plain p (List.mem_of_mem_filter kept)
  · split at added
    · contradiction
    · exact List.mem_singleton.mp added ▸ new

theorem render_erase_length_le (key : Bytes) (ps : List Pair) :
    (render (erase key ps)).length ≤ (render ps).length := by
  induction ps with
  | nil => simp [erase]
  | cons p ps ih =>
    by_cases erased : foldEq p.1 key = true
    · simpa [erase, erased] using ih.trans (Nat.le_add_left _ _)
    · simpa [erase, erased] using ih

theorem render_store_length_le (key value : Bytes) (ps : List Pair) :
    (render (store key value ps)).length ≤ (render ps).length + (key.length + value.length + 2) := by
  have kept := render_erase_length_le key ps
  rw [store, render_append, List.length_append]
  split
  · simpa using kept.trans (Nat.le_add_right _ _)
  · simp only [render_cons, render_nil, List.append_nil, renderPair_length]
    omega

/-! ### The helpers against the dictionary -/

theorem infoValueLoop_spec (fuel : Nat) (enough : s.length ≤ fuel) :
    infoValueLoop key outlen fuel s = (lookup key (pairs s)).map (List.take (outlen - 1)) := by
  induction fuel generalizing s with
  | zero =>
    obtain rfl : s = [] := List.length_eq_zero_iff.mp (by omega)
    simp [infoValueLoop, lookup]
  | succ fuel ih =>
    cases read : readPair s with
    | none => simp [infoValueLoop, read, readPair_none read, lookup]
    | some c =>
      have shorter := readPair_length read
      rw [readPair_pairs read]
      by_cases matched : foldEq c.key key = true
      · simp [infoValueLoop, read, matched, lookup]
      · have skipped : lookup key ((c.key, c.value) :: pairs c.vend) = lookup key (pairs c.vend) := by
          simp [lookup, matched]
        rw [skipped, infoValueLoop]
        simp only [read, matched, Bool.false_eq_true, if_false]
        split
        · rename_i ended
          have last : c.vend = [] := by
            rcases (readPair_some read).2.2 with last | next
            · exact last
            · exact absurd (next.symm.trans ended) (by decide)
          simp [last, lookup]
        · exact ih (by omega)

theorem infoValue_spec (positive : outlen ≠ 0) :
    infoValue s key outlen = (lookup key (pairs s)).map (List.take (outlen - 1)) := by
  rw [infoValue, if_neg positive, infoValueLoop_spec _ (Nat.le_refl _)]

theorem infoSetLoop_spec (fuel : Nat) (enough : s.length ≤ fuel)
    (room : tmp.length + s.length < 2047) :
    infoSetLoop key fuel s tmp = tmp ++ render (erase key (pairs s)) := by
  induction fuel generalizing s tmp with
  | zero =>
    obtain rfl : s = [] := List.length_eq_zero_iff.mp (by omega)
    simp [infoSetLoop, erase]
  | succ fuel ih =>
    cases read : readPair s with
    | none => simp [infoSetLoop, read, readPair_none read, erase]
    | some c =>
      have shorter := readPair_length read
      obtain ⟨text, plain, stop⟩ := readPair_some read
      have copied : s.take (s.length - c.vend.length) = renderPair (c.key, c.value) := by
        rw [text]
        simp
      -- the copy made at this pair is what the dictionary keeps of it
      have turn : ∃ kept, (if ¬ foldEq c.key key ∧ tmp.length + (s.length - c.vend.length) < 2048 - 1
            then tmp ++ s.take (s.length - c.vend.length) else tmp) = tmp ++ kept ∧
          kept.length + c.vend.length ≤ s.length ∧
          render (erase key (pairs s)) = kept ++ render (erase key (pairs c.vend)) := by
        rw [readPair_pairs read]
        by_cases matched : foldEq c.key key = true
        · exact ⟨[], by simp [matched], by simp; omega, by simp [erase, matched]⟩
        · refine ⟨renderPair (c.key, c.value), ?_, ?_, by simp [erase, matched]⟩
          · rw [if_pos ⟨matched, by omega⟩, copied]
          · have := congrArg List.length text
            simp only [List.length_append] at this
            omega
      obtain ⟨kept, copy, fits, meaning⟩ := turn
      simp only [infoSetLoop, read, copy, meaning]
      split
      · rename_i ended
        have last : c.vend = [] := by
          rcases stop with last | next
          · exact last
          · exact absurd (next.symm.trans ended) (by decide)
        simp [last, erase]
      · rw [ih (by omega) (by simp only [List.length_append]; omega), List.append_assoc]

/-- Within its 2048 bytes a rewrite is the dictionary's `store`. -/
theorem infoSet_spec (nulFree : 0 ∉ value) (room : s.length + (key.length + value.length + 2) < 2047) :
    infoSet s 2048 key value = render (store key value (pairs s)) := by
  have kept := (render_erase_length_le key (pairs s)).trans (render_pairs_length_le s)
  have copied : infoSetLoop key s.length s [] = render (erase key (pairs s)) :=
    infoSetLoop_spec _ (Nat.le_refl _) (by simp only [List.length_nil]; omega)
  simp only [infoSet, copied, ne_eq, peek_eq_zero_iff nulFree]
  by_cases empty : value = []
  · simp only [empty, not_true_eq_false, false_and, if_false, store, if_true, List.append_nil]
    exact List.take_of_length_le (by omega)
  · rw [if_pos ⟨empty, by omega, by omega⟩, List.take_of_length_le]
    · simp [store, empty, render_append, renderPair]
    · simp only [List.length_append, List.length_cons]
      omega

theorem pairs_infoSet (nulFree : 0 ∉ value) (new : Plain (key, value))
    (room : s.length + (key.length + value.length + 2) < 2047) :
    pairs (infoSet s 2048 key value) = store key value (pairs s) := by
  rw [infoSet_spec nulFree room]
  exact pairs_render (store_plain (pairs_plain s) new)

theorem infoSet_length_le (s key : Bytes) (nulFree : 0 ∉ value)
    (room : s.length + (key.length + value.length + 2) < 2047) :
    (infoSet s 2048 key value).length ≤ s.length + (key.length + value.length + 2) := by
  rw [infoSet_spec nulFree room]
  have added := render_store_length_le key value (pairs s)
  have kept := render_pairs_length_le s
  omega

end JaplusProxy.Userinfo
