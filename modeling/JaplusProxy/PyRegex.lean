import JaplusProxy.PyString

/-! Patterns of Python's `re` that repeat single characters only. A match is searched with
backtracking, so all ways to match are listed in the order in which they are tried. -/
namespace PyRegex
open PyString

inductive Item where
  | text (s : Str)
  /-- `[..]+`, or `[..]+?` when it is not greedy. -/
  | many (cls : Char → Bool) (greedy : Bool)
  /-- `([..]+)` or `([..]+?)` -/
  | group (cls : Char → Bool) (greedy : Bool)
  /-- `(?:..)?` -/
  | optional (s : Str)
  /-- `$` -/
  | stop

/-- The ways to take characters of the class, one at least, and what they leave; the
shortest first. -/
def takes (cls : Char → Bool) : Str → List (Str × Str)
  | [] => []
  | c :: s => if cls c then ([c], s) :: (takes cls s).map fun way => (c :: way.1, way.2) else []

def ways (cls : Char → Bool) (greedy : Bool) (s : Str) : List (Str × Str) :=
  if greedy then (takes cls s).reverse else takes cls s

/-- The groups of each match at the front of the text. -/
def captures : List Item → Str → List (List Str)
  | [], _ => [[]]
  | .text t :: items, s => if t <+: s then captures items (s.drop t.length) else []
  | .many cls greedy :: items, s => (ways cls greedy s).flatMap fun way => captures items way.2
  | .group cls greedy :: items, s =>
    (ways cls greedy s).flatMap fun way => (captures items way.2).map fun groups => way.1 :: groups
  | .optional t :: items, s => (if t <+: s then captures items (s.drop t.length) else []) ++ captures items s
  | .stop :: items, s => if s = [] ∨ s = ['\n'] then captures items s else []

/-- `pattern.match(s)`, with the groups. -/
def firstMatch (items : List Item) (s : Str) : Option (List Str) := (captures items s).head?

/-- `.` -/
def dot (c : Char) : Bool := c ≠ '\n'

theorem ways_refused (refused : cls c = false) (greedy : Bool) (s : Str) : ways cls greedy (c :: s) = [] := by
  cases greedy <;> simp [ways, takes, refused]

/-- A pattern that begins with a character class needs one of it in front. -/
theorem firstMatch_group_refused (refused : cls c = false) (greedy : Bool) (items : List Item) (s : Str) :
    firstMatch (.group cls greedy :: items) (c :: s) = none := by
  rw [firstMatch, captures, ways_refused refused]
  rfl

theorem firstMatch_text_refused (refused : ¬ t <+: s) (items : List Item) : firstMatch (.text t :: items) s = none := by
  rw [firstMatch, captures, if_neg refused]
  rfl

/-! ### The first match, item by item -/

theorem firstMatch_text (t s : Str) (items : List Item) :
    firstMatch (.text t :: items) (t ++ s) = firstMatch items s := by
  rw [firstMatch, captures, if_pos (List.prefix_append t s), List.drop_left, firstMatch]

theorem firstMatch_many (cls : Char → Bool) (greedy : Bool) (items : List Item) (s : Str) :
    firstMatch (.many cls greedy :: items) s = (ways cls greedy s).findSome? fun way => firstMatch items way.2 := by
  rw [firstMatch, captures, List.head?_flatMap]
  rfl

theorem firstMatch_group (cls : Char → Bool) (greedy : Bool) (items : List Item) (s : Str) :
    firstMatch (.group cls greedy :: items) s =
      (ways cls greedy s).findSome? fun way => (firstMatch items way.2).map (way.1 :: ·) := by
  rw [firstMatch, captures, List.head?_flatMap]
  congr 1
  funext way
  rw [List.head?_map]
  rfl

/-! ### Repetitions -/

theorem takes_append (within : ∀ c ∈ a, cls c = true) (s : Str) : takes cls (a ++ s) =
    ((takes cls a).map fun way => (way.1, way.2 ++ s)) ++ (takes cls s).map fun way => (a ++ way.1, way.2) := by
  induction a with
  | nil => simp [takes]
  | cons c a ih =>
    have here := within c (.head _)
    simp [takes, here, ih fun d member => within d (.tail _ member), Function.comp_def]

theorem takes_refused (refused : ∀ c ∈ s.head?, cls c = false) : takes cls s = [] := by
  cases s with
  | nil => rfl
  | cons c s => simp [takes, refused c rfl]

/-- What was taken and what is left. -/
theorem mem_takes (member : way ∈ takes cls s) : s = way.1 ++ way.2 ∧ way.1 ≠ [] ∧ ∀ c ∈ way.1, cls c = true := by
  induction s generalizing way with
  | nil => cases member
  | cons c s ih =>
    rw [takes] at member
    split at member
    · rename_i here
      rcases List.mem_cons.mp member with rfl | more
      · exact ⟨rfl, by simp, by simp [here]⟩
      · obtain ⟨way, inside, rfl⟩ := List.mem_map.mp more
        obtain ⟨split, _, within⟩ := ih inside
        exact ⟨by simp [split], by simp, List.forall_mem_cons.mpr ⟨here, within⟩⟩
    · cases member

theorem mem_ways (member : way ∈ ways cls greedy s) : s = way.1 ++ way.2 ∧ way.1 ≠ [] ∧ ∀ c ∈ way.1, cls c = true := by
  have taken : way ∈ takes cls s := by
    cases greedy
    · exact member
    · exact List.mem_reverse.mp member
  exact mem_takes taken

/-- All of a text is taken last. -/
theorem takes_all (within : ∀ c ∈ a, cls c = true) (nonempty : a ≠ []) :
    ∃ shorter, takes cls a = shorter ++ [(a, [])] ∧ ∀ way ∈ shorter, way.2 ≠ [] := by
  induction a with
  | nil => exact absurd rfl nonempty
  | cons c a ih =>
    have here := within c (.head _)
    by_cases single : a = []
    · subst single
      exact ⟨[], by simp [takes, here], by simp⟩
    · obtain ⟨shorter, split, left⟩ := ih (fun d member => within d (.tail _ member)) single
      refine ⟨([c], a) :: shorter.map fun way => (c :: way.1, way.2), by simp [takes, here, split], ?_⟩
      rintro way (_ | ⟨_, member⟩)
      · exact single
      · obtain ⟨way, inside, rfl⟩ := List.mem_map.mp member
        exact left way inside

/-- A text is taken whole before what follows it, and all of it before less. -/
theorem takes_split (within : ∀ c ∈ a, cls c = true) (nonempty : a ≠ []) (s : Str) : ∃ shorter longer,
    takes cls (a ++ s) = shorter ++ (a, s) :: longer ∧
      (∀ way ∈ shorter, ∃ back, way.2 = back ++ s ∧ a = way.1 ++ back ∧ back ≠ []) ∧
      ∀ way ∈ longer, ∃ more ∈ takes cls s, way.2 = more.2 := by
  obtain ⟨shorter, split, left⟩ := takes_all within nonempty
  refine ⟨shorter.map fun way => (way.1, way.2 ++ s), (takes cls s).map fun way => (a ++ way.1, way.2), ?_, ?_, ?_⟩
  · rw [takes_append within, split]
    simp
  · intro way member
    obtain ⟨way, inside, rfl⟩ := List.mem_map.mp member
    have taken : way ∈ takes cls a := split ▸ List.mem_append_left _ inside
    exact ⟨way.2, rfl, (mem_takes taken).1, left way inside⟩
  · intro way member
    obtain ⟨more, inside, rfl⟩ := List.mem_map.mp member
    exact ⟨more, inside, rfl⟩

theorem findSome?_split {α β : Type} {f : α → Option β} {front back : List α} {x : α} {y : β}
    (none_ : ∀ a ∈ front, f a = none) (some_ : f x = some y) : List.findSome? f (front ++ x :: back) = some y := by
  rw [List.findSome?_append, List.findSome?_eq_none_iff.mpr none_, Option.none_or, List.findSome?_cons, some_]

/-- The shortest text that the rest of the pattern can follow. -/
theorem firstMatch_lazy (within : ∀ c ∈ text, cls c = true) (nonempty : text ≠ [])
    (sooner : ∀ front back, text = front ++ back → back ≠ [] → firstMatch items (back ++ rest) = none)
    (here : firstMatch items rest = some groups) :
    firstMatch (.group cls false :: items) (text ++ rest) = some (text :: groups) := by
  obtain ⟨shorter, longer, split, left, _⟩ := takes_split within nonempty rest
  rw [firstMatch_group, ways, if_neg Bool.false_ne_true, split]
  refine findSome?_split (fun way member => ?_) (by rw [here]; rfl)
  obtain ⟨back, remains, parts, more⟩ := left way member
  rw [remains, sooner way.1 back parts more]
  rfl

/-- The longest. -/
theorem firstMatch_greedy (within : ∀ c ∈ text, cls c = true) (nonempty : text ≠ [])
    (later : ∀ way ∈ takes cls rest, firstMatch items way.2 = none) (here : firstMatch items rest = some groups) :
    firstMatch (.group cls true :: items) (text ++ rest) = some (text :: groups) := by
  obtain ⟨shorter, longer, split, _, beyond⟩ := takes_split within nonempty rest
  rw [firstMatch_group, ways, if_pos rfl, split, List.reverse_append, List.reverse_cons, List.append_assoc,
    List.singleton_append]
  refine findSome?_split (fun way member => ?_) (by rw [here]; rfl)
  obtain ⟨more, inside, remains⟩ := beyond way (List.mem_reverse.mp member)
  rw [remains, later more inside]
  rfl

/-- A single character before one that does not belong to the class. -/
theorem firstMatch_one (inside : cls c = true) (refused : ∀ d ∈ s.head?, cls d = false) (greedy : Bool)
    (items : List Item) : firstMatch (.many cls greedy :: items) (c :: s) = firstMatch items s := by
  have single : ways cls greedy (c :: s) = [([c], s)] := by
    cases greedy <;> simp [ways, takes, inside, takes_refused refused]
  rw [firstMatch_many, single, List.findSome?_cons]
  cases firstMatch items s <;> rfl

/-- No text of the class is followed by the rest of the pattern. -/
theorem firstMatch_many_none (none_ : ∀ front back, s = front ++ back → front ≠ [] → (∀ c ∈ front, cls c = true) →
    firstMatch items back = none) (greedy : Bool) : firstMatch (.many cls greedy :: items) s = none := by
  rw [firstMatch_many, List.findSome?_eq_none_iff]
  intro way member
  obtain ⟨split, some_, within⟩ := mem_ways member
  exact none_ way.1 way.2 split some_ within

/-! ### All matches -/

/-- A text that `[..]+` matches as a whole. -/
def Repeats (cls : Char → Bool) (s : Str) : Prop := s ≠ [] ∧ ∀ c ∈ s, cls c = true

theorem mem_ways_iff : way ∈ ways cls greedy s ↔ s = way.1 ++ way.2 ∧ Repeats cls way.1 := by
  refine ⟨mem_ways, fun ⟨split, nonempty, within⟩ => ?_⟩
  obtain ⟨shorter, longer, all, _⟩ := takes_split within nonempty way.2
  have taken : way ∈ takes cls s := by
    rw [split, all]
    simp
  cases greedy
  · exact taken
  · exact List.mem_reverse.mpr taken

theorem mem_captures_text : groups ∈ captures (.text t :: items) s ↔
    ∃ back, s = t ++ back ∧ groups ∈ captures items back := by
  rw [captures]
  split
  · rename_i begins
    obtain ⟨back, rfl⟩ := begins
    simp
  · rename_i other
    exact ⟨nofun, fun ⟨back, split, _⟩ => absurd ⟨back, split.symm⟩ other⟩

theorem mem_captures_many : groups ∈ captures (.many cls greedy :: items) s ↔
    ∃ front back, s = front ++ back ∧ Repeats cls front ∧ groups ∈ captures items back := by
  simp only [captures, List.mem_flatMap, mem_ways_iff, Prod.exists, and_assoc]

theorem mem_captures_group : groups ∈ captures (.group cls greedy :: items) s ↔
    ∃ front back, s = front ++ back ∧ Repeats cls front ∧ ∃ rest ∈ captures items back, groups = front :: rest := by
  simp only [captures, List.mem_flatMap, List.mem_map, mem_ways_iff, Prod.exists, and_assoc, eq_comm]

end PyRegex
