import JaplusProxy.PyString

/-! pathlib's POSIX paths: a root and the parts below it. -/

open PyString

/-- A part of a path that stays when it is read. -/
def CleanPart (part : Str) : Prop := part ≠ [] ∧ part ≠ ['.'] ∧ '/' ∉ part

instance (part : Str) : Decidable (CleanPart part) := inferInstanceAs (Decidable (_ ∧ _))

structure PyPath where
  /-- `""`, `"/"` or `"//"` -/
  root : Str
  parts : List Str
  rooted : root ∈ [[], ['/'], ['/', '/']]
  clean : ∀ part ∈ parts, CleanPart part
  deriving DecidableEq

namespace PyPath

def rootOf : Str → Str
  | '/' :: '/' :: '/' :: _ => ['/']
  | '/' :: '/' :: _ => ['/', '/']
  | '/' :: _ => ['/']
  | _ => []

theorem rootOf_rooted (s : Str) : rootOf s ∈ [[], ['/'], ['/', '/']] := by
  unfold rootOf
  split <;> decide

def partsOf (s : Str) : List Str := (s.splitOn '/').filter fun part => part ≠ [] ∧ part ≠ ['.']

theorem splitOn_free (c : Char) (s : Str) : ∀ part ∈ s.splitOn c, c ∉ part := by
  induction s with
  | nil => simp [List.splitOn_nil]
  | cons d s ih =>
    rw [List.splitOn_cons_eq_if_modifyHead]
    split
    · simpa using ih
    · rename_i other
      obtain ⟨first, rest, shape⟩ := List.exists_cons_of_ne_nil (List.splitOn_ne_nil c s)
      rw [shape] at ih ⊢
      have apart : c ≠ d := fun same => other (beq_iff_eq.mpr same.symm)
      simpa [apart] using ih

theorem partsOf_clean (s : Str) : ∀ part ∈ partsOf s, CleanPart part := by
  intro part member
  obtain ⟨inside, kept⟩ := List.mem_filter.mp member
  obtain ⟨filled, real⟩ := of_decide_eq_true kept
  exact ⟨filled, real, splitOn_free '/' s part inside⟩

/-- `Path(s)` -/
def parse (s : Str) : PyPath := ⟨rootOf s, partsOf s, rootOf_rooted s, partsOf_clean s⟩

/-- `p / q` -/
def join (p q : PyPath) : PyPath :=
  if q.root ≠ [] then q
  else ⟨p.root, p.parts ++ q.parts, p.rooted, fun part member =>
    (List.mem_append.mp member).elim (p.clean part) (q.clean part)⟩

/-- `str(p)` -/
def toStr (p : PyPath) : Str :=
  if p.root = [] ∧ p.parts = [] then ['.'] else p.root ++ ['/'].intercalate p.parts

/-! ### Reading what was printed -/

theorem rootOf_append {root : Str} (rooted : root ∈ [[], ['/'], ['/', '/']]) (s : Str) (apart : s.head? ≠ some '/') :
    rootOf (root ++ s) = root := by
  simp only [List.mem_cons, List.not_mem_nil, or_false] at rooted
  rcases rooted with rfl | rfl | rfl
  all_goals
    cases s with
    | nil => rfl
    | cons c s =>
      have other : c ≠ '/' := by simpa using apart
      simp [rootOf, other]

theorem partsOf_slash (s : Str) : partsOf ('/' :: s) = partsOf s := by
  simp [partsOf, List.splitOn_cons_eq_if_modifyHead]

theorem partsOf_root {root : Str} (rooted : root ∈ [[], ['/'], ['/', '/']]) (s : Str) :
    partsOf (root ++ s) = partsOf s := by
  simp only [List.mem_cons, List.not_mem_nil, or_false] at rooted
  rcases rooted with rfl | rfl | rfl
  · rfl
  · exact partsOf_slash s
  · exact (partsOf_slash _).trans (partsOf_slash s)

theorem partsOf_intercalate {parts : List Str} (clean : ∀ part ∈ parts, CleanPart part) :
    partsOf (['/'].intercalate parts) = parts := by
  by_cases some_ : parts = []
  · subst some_
    rfl
  · rw [partsOf, List.splitOn_intercalate '/' (fun part member => (clean part member).2.2) some_, List.filter_eq_self]
    exact fun part member => decide_eq_true ⟨(clean part member).1, (clean part member).2.1⟩

theorem intercalate_head {parts : List Str} (clean : ∀ part ∈ parts, CleanPart part) :
    (['/'].intercalate parts).head? ≠ some '/' := by
  cases parts with
  | nil => simp
  | cons part rest =>
    obtain ⟨filled, _, free⟩ := clean part (.head _)
    obtain ⟨c, part, rfl⟩ := List.exists_cons_of_ne_nil filled
    have other : c ≠ '/' := fun same => free (same ▸ .head _)
    cases rest <;> simp [other]

theorem parse_toStr (p : PyPath) : parse p.toStr = p := by
  obtain ⟨root, parts, rooted, clean⟩ := p
  simp only [parse, toStr, mk.injEq]
  split
  · rename_i empty
    obtain ⟨rfl, rfl⟩ := empty
    exact ⟨rfl, rfl⟩
  · exact ⟨rootOf_append rooted _ (intercalate_head clean), (partsOf_root rooted _).trans (partsOf_intercalate clean)⟩

/-! ### Names -/

/-- A file name. -/
def name (s : Str) (clean : CleanPart s := by decide) : PyPath :=
  ⟨[], [s], by decide, fun _ member => List.mem_singleton.mp member ▸ clean⟩

theorem join_name_inj {p q : PyPath} {s t : Str} (cleanS : CleanPart s) (cleanT : CleanPart t)
    (same : p.join (name s cleanS) = q.join (name t cleanT)) : p = q ∧ s = t := by
  obtain ⟨root, parts, _, _⟩ := p
  obtain ⟨root', parts', _, _⟩ := q
  simp only [join, name, ne_eq, not_true, if_false, mk.injEq, List.append_singleton_inj] at same
  obtain ⟨rfl, rfl, rfl⟩ := same
  exact ⟨rfl, rfl⟩

theorem intercalate_concat {parts : List Str} (some_ : parts ≠ []) (sep s : Str) :
    sep.intercalate (parts ++ [s]) = sep.intercalate parts ++ sep ++ s := by
  induction parts with
  | nil => contradiction
  | cons part rest ih =>
    by_cases last : rest = []
    · simp [last]
    · rw [List.cons_append, List.intercalate_cons_of_ne_nil (by simp), List.intercalate_cons_of_ne_nil last, ih last]
      simp

theorem toStr_join_name {p : PyPath} (below : p.parts ≠ []) (clean : CleanPart s) :
    (p.join (name s clean)).toStr = p.toStr ++ '/' :: s := by
  simp only [join, name, toStr, ne_eq, not_true, if_false, List.append_eq_nil_iff, below, List.cons_ne_nil, and_false]
  rw [intercalate_concat below]
  simp

end PyPath
