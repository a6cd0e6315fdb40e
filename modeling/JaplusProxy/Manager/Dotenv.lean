import Mathlib.Data.Bool.AllAny
import JaplusProxy.PyDict
import JaplusProxy.PyText

/-! load_dotenv of japm.py: the lines `KEY=VALUE` of a file, put into the environment where
it has no such variable yet. -/
namespace JaplusProxy.Manager.Dotenv
open PyString

abbrev Environ := PyDict Str Str

/-- The quotes that are stripped from a value. -/
def isQuote (c : Char) : Bool := c = '"' ∨ c = '\''

/-- What a line assigns, if it does. -/
def assignment (raw : Str) : Option (Str × Str) :=
  let line := strip raw
  if line = [] ∨ line.head? = some '#' ∨ '=' ∉ line then none
  else
    let key := strip (line.takeWhile (· ≠ '='))
    let val := stripOf isQuote (strip ((line.dropWhile (· ≠ '=')).drop 1))
    if key = [] then none else some (key, val)

/-- How load_dotenv ends. -/
structure Loaded where
  environ : Environ
  /-- putenv refuses a NUL; what was loaded before stays. -/
  raised : Bool := false
  deriving DecidableEq

def loadLines (environ : Environ) : List Str → Loaded
  | [] => { environ := environ }
  | raw :: rest =>
    match assignment raw with
    | none => loadLines environ rest
    | some (key, val) =>
      if (environ.get? key).isSome then loadLines environ rest
      else if '\x00' ∈ key ∨ '\x00' ∈ val then { environ := environ, raised := true }
      else loadLines (environ.set key val) rest

/-- `load_dotenv`, where the file can be read if it has a text. -/
def loadDotenv (file : Option Str) (environ : Environ) : Loaded :=
  match file with
  | none => { environ := environ }
  | some text => loadLines environ (splitlines text)

/-! ### What is loaded -/

/-- What the lines have for a key, the first of them first. -/
def firstOf (lines : List Str) (key : Str) : Option Str := PyDict.find? (lines.filterMap assignment) key

theorem firstOf_cons (raw : Str) (rest : List Str) (key : Str) : firstOf (raw :: rest) key =
    ((assignment raw).bind fun entry => if key = entry.1 then some entry.2 else none).or (firstOf rest key) := by
  rw [firstOf, List.filterMap_cons]
  cases assignment raw with
  | none => rfl
  | some entry =>
    rw [PyDict.find?, PyDict.lookup_cons, Option.bind_some]
    split <;> rfl

/-- A variable keeps its value, and another has that of its first line. -/
theorem loadLines_get (quiet : (loadLines environ lines).raised = false) (key : Str) :
    (loadLines environ lines).environ.get? key = (environ.get? key).or (firstOf lines key) := by
  induction lines generalizing environ with
  | nil => simp [loadLines, firstOf, PyDict.find?]
  | cons raw rest ih =>
    rw [loadLines] at quiet ⊢
    rw [firstOf_cons]
    cases assigned : assignment raw with
    | none =>
      rw [assigned] at quiet
      simpa using ih quiet
    | some entry =>
      obtain ⟨k, v⟩ := entry
      rw [assigned] at quiet
      dsimp only at quiet ⊢
      by_cases known : (environ.get? k).isSome
      · rw [if_pos known] at quiet ⊢
        rw [ih quiet]
        by_cases here : key = k
        · subst here
          obtain ⟨old, found⟩ := Option.isSome_iff_exists.mp known
          simp [found]
        · simp [here]
      · rw [if_neg known] at quiet ⊢
        by_cases refused : '\x00' ∈ k ∨ '\x00' ∈ v
        · rw [if_pos refused] at quiet
          cases quiet
        · rw [if_neg refused] at quiet ⊢
          rw [ih quiet, PyDict.get?_set]
          by_cases here : key = k
          · subst here
            simp [Option.not_isSome_iff_eq_none.mp known]
          · simp [here]

/-- Where every variable is set, nothing happens. -/
theorem loadLines_known (known : ∀ raw ∈ lines, ∀ k v, assignment raw = some (k, v) → (environ.get? k).isSome) :
    loadLines environ lines = { environ := environ } := by
  induction lines with
  | nil => rfl
  | cons raw rest ih =>
    have later := ih fun other member => known other (.tail _ member)
    rw [loadLines]
    cases assigned : assignment raw with
    | none => exact later
    | some entry =>
      dsimp only
      rw [if_pos (known raw (.head _) entry.1 entry.2 assigned), later]

theorem firstOf_isSome (member : raw ∈ lines) (assigned : assignment raw = some (k, v)) : (firstOf lines k).isSome := by
  have inside : (k, v) ∈ lines.filterMap assignment := List.mem_filterMap.mpr ⟨raw, member, assigned⟩
  obtain ⟨value, found⟩ := PyDict.find?_some (List.mem_map_of_mem inside)
  exact Option.isSome_iff_exists.mpr ⟨value, found⟩

/-- What is assigned stands in the line. -/
theorem assignment_subset (assigned : assignment raw = some (k, v)) : k ⊆ raw ∧ v ⊆ raw := by
  rw [assignment] at assigned
  split at assigned
  · cases assigned
  · dsimp only at assigned
    split at assigned
    · cases assigned
    · cases assigned
      constructor
      · intro c member
        have inside := stripOf_subset _ _ member
        exact stripOf_subset _ _ ((List.takeWhile_sublist _).subset inside)
      · intro c member
        have inside := stripOf_subset _ _ (stripOf_subset _ _ member)
        exact stripOf_subset _ _ ((List.dropWhile_sublist _).subset (List.mem_of_mem_drop inside))

theorem loadLines_quiet (environ : Environ) (quiet : ∀ raw ∈ lines, '\x00' ∉ raw) :
    (loadLines environ lines).raised = false := by
  induction lines generalizing environ with
  | nil => rfl
  | cons raw rest ih =>
    have later (environ : Environ) := ih environ fun other member => quiet other (.tail _ member)
    rw [loadLines]
    split
    · exact later _
    · rename_i k v assigned
      obtain ⟨left, right⟩ := assignment_subset assigned
      split
      · exact later _
      · rw [if_neg (not_or.mpr ⟨fun nul => quiet raw (.head _) (left nul), fun nul => quiet raw (.head _) (right nul)⟩)]
        exact later _

/-- For every variable, the environment decides before the file, and of the lines of the file
the first; loading the file again changes nothing. -/
theorem loadDotenv_spec (text : Str) (environ : Environ) (quiet : '\x00' ∉ text) :
    (∀ key, (loadDotenv (some text) environ).environ.get? key =
      (environ.get? key).or (firstOf (splitlines text) key)) ∧
    loadDotenv (some text) (loadDotenv (some text) environ).environ = loadDotenv (some text) environ := by
  have lines : ∀ raw ∈ splitlines text, '\x00' ∉ raw := fun raw member nul => quiet (mem_splitlines member nul)
  have silent := loadLines_quiet environ lines
  have get := loadLines_get silent
  refine ⟨get, ?_⟩
  have known : ∀ raw ∈ splitlines text, ∀ k v, assignment raw = some (k, v) →
      ((loadLines environ (splitlines text)).environ.get? k).isSome := by
    intro raw member k v assigned
    rw [get, Option.isSome_or, firstOf_isSome member assigned, Bool.or_true]
  rw [loadDotenv, loadDotenv, loadLines_known known, ← silent]

theorem loadDotenv_spec_twice :
    (∀ key, (loadDotenv (some (str "A=1\n# B=2\n A = '3'\n")) .empty).environ.get? key =
      ((PyDict.empty : Environ).get? key).or (firstOf (splitlines (str "A=1\n# B=2\n A = '3'\n")) key)) ∧
    loadDotenv (some (str "A=1\n# B=2\n A = '3'\n"))
        (loadDotenv (some (str "A=1\n# B=2\n A = '3'\n")) .empty).environ =
      loadDotenv (some (str "A=1\n# B=2\n A = '3'\n")) .empty :=
  loadDotenv_spec (str "A=1\n# B=2\n A = '3'\n") .empty (by decide)

/-! ### What is written is read -/

/-- `KEY="VALUE"` and the end of the line. -/
def render (entry : Str × Str) : Str := entry.1 ++ str "=\"" ++ entry.2 ++ str "\"\n"

def renderAll (entries : List (Str × Str)) : Str := entries.flatMap render

/-- A name that is not empty, does not begin a comment and has no white space, equals sign or
NUL, and a value on one line, without a NUL, that no quote begins or ends. -/
structure Writable (entry : Str × Str) : Prop where
  named : entry.1 ≠ []
  uncommented : entry.1.head? ≠ some '#'
  solid : ∀ c ∈ entry.1, isSpace c = false ∧ c ≠ '=' ∧ c ≠ '\x00'
  flat : ∀ c ∈ entry.2, isLineBreak c = false ∧ c ≠ '\x00'
  opens : ∀ c ∈ entry.2.head?, isQuote c = false
  closes : ∀ c ∈ entry.2.getLast?, isQuote c = false

theorem isSpace_of_isLineBreak (breaks : isLineBreak c = true) : isSpace c = true := by
  simp only [isLineBreak, isSpace, Bool.or_eq_true, Bool.and_eq_true, decide_eq_true_eq, beq_iff_eq] at breaks ⊢
  omega

theorem strip_solid (solid : ∀ c ∈ s, isSpace c = false) : strip s = s := by
  rw [strip, stripOf]
  have front : s.dropWhile isSpace = s := by
    cases s with
    | nil => rfl
    | cons c s => exact List.dropWhile_cons_of_neg (by simp [solid c (.head _)])
  rw [front, List.rdropWhile_eq_self_iff]
  exact fun nonempty => by simp [solid _ (List.getLast_mem nonempty)]

/-- The quotes around a value go, and no others. -/
theorem stripOf_quoted (opens : ∀ c ∈ val.head?, isQuote c = false) (closes : ∀ c ∈ val.getLast?, isQuote c = false) :
    stripOf isQuote ('"' :: val ++ ['"']) = val := by
  have quote : isQuote '"' = true := by decide
  rw [stripOf, List.cons_append, List.dropWhile_cons_of_pos quote]
  cases val with
  | nil => rfl
  | cons c val =>
    rw [List.cons_append, List.dropWhile_cons_of_neg (by simp [opens c rfl]), ← List.cons_append,
      List.rdropWhile_concat_pos _ _ _ quote, List.rdropWhile_eq_self_iff]
    intro nonempty
    simp [closes _ (List.getLast?_eq_some_getLast nonempty)]

theorem assignment_render (writable : Writable (key, val)) :
    assignment (key ++ str "=\"" ++ val ++ ['"']) = some (key, val) := by
  have named := writable.named
  have solid := writable.solid
  have space : isSpace '"' = false := by decide
  obtain ⟨c, name, rfl⟩ := List.exists_cons_of_ne_nil named
  have first := solid c (.head _)
  have shape : c :: name ++ str "=\"" ++ val ++ ['"'] = c :: (name ++ '=' :: '"' :: val) ++ ['"'] := by simp [str]
  have body : c :: (name ++ '=' :: '"' :: val) ++ ['"'] = (c :: name) ++ '=' :: ('"' :: val ++ ['"']) := by simp
  have other : ∀ d ∈ c :: name, decide (d ≠ '=') = true := fun d member => decide_eq_true (solid d member).2.1
  have accepted : ¬ ((c :: name) ++ '=' :: ('"' :: val ++ ['"']) = [] ∨
      ((c :: name) ++ '=' :: ('"' :: val ++ ['"'])).head? = some '#' ∨
      '=' ∉ (c :: name) ++ '=' :: ('"' :: val ++ ['"'])) := by
    rintro (empty | comment | missing)
    · cases empty
    · exact writable.uncommented comment
    · exact missing (by simp)
  rw [assignment, shape, strip, stripOf_ends first.1 space, body, if_neg accepted,
    List.takeWhile_append_of_pos other, List.dropWhile_append_of_pos other]
  simp only [List.takeWhile_cons, List.dropWhile_cons, ne_eq, not_true_eq_false, decide_false, Bool.false_eq_true,
    if_false, List.append_nil, List.drop_succ_cons, List.drop_zero]
  rw [strip_solid fun d member => (solid d member).1, if_neg named, strip, stripOf_ends space space,
    stripOf_quoted writable.opens writable.closes]

theorem splitlines_renderAll (entries : List (Str × Str)) (writable : ∀ entry ∈ entries, Writable entry) :
    splitlines (renderAll entries) = entries.map fun entry => entry.1 ++ str "=\"" ++ entry.2 ++ ['"'] := by
  have lines : renderAll entries =
      (entries.map fun entry => entry.1 ++ str "=\"" ++ entry.2 ++ ['"']).flatMap fun line => line ++ ['\n'] := by
    rw [renderAll, List.flatMap_map]
    congr 1
    funext entry
    simp [render, str]
  rw [lines, splitlines_flatMap]
  intro line member c inside
  obtain ⟨entry, listed, rfl⟩ := List.mem_map.mp member
  have fits := writable entry listed
  have equals : str "=\"" = ['=', '"'] := rfl
  simp only [equals, List.mem_append, List.mem_cons, List.not_mem_nil, or_false] at inside
  rcases inside with ((named | rfl | rfl) | valued) | rfl
  · by_contra breaks
    have space := isSpace_of_isLineBreak (eq_true_of_ne_false breaks)
    rw [(fits.solid c named).1] at space
    cases space
  · rfl
  · rfl
  · exact (fits.flat c valued).1
  · rfl

/-- Variables that are written to the file, each once, are what is read from it. -/
theorem dotenv_roundTrip (entries : List (Str × Str)) (writable : ∀ entry ∈ entries, Writable entry) (environ : Environ)
    (key : Str) : (loadDotenv (some (renderAll entries)) environ).environ.get? key =
      (environ.get? key).or (PyDict.find? entries key) := by
  have read : (splitlines (renderAll entries)).filterMap assignment = entries := by
    rw [splitlines_renderAll entries writable, List.filterMap_map]
    refine Eq.trans (List.filterMap_congr fun entry member => ?_) List.filterMap_some
    exact assignment_render (writable entry member)
  have quiet : ∀ raw ∈ splitlines (renderAll entries), '\x00' ∉ raw := by
    rw [splitlines_renderAll entries writable]
    intro raw member nul
    obtain ⟨entry, listed, rfl⟩ := List.mem_map.mp member
    have fits := writable entry listed
    have equals : str "=\"" = ['=', '"'] := rfl
    simp only [equals, List.mem_append, List.mem_cons, List.not_mem_nil, or_false, Char.reduceEq] at nul
    rcases nul with named | valued
    · exact (fits.solid _ named).2.2 rfl
    · exact (fits.flat _ valued).2 rfl
  rw [loadDotenv, loadLines_get (loadLines_quiet environ quiet), firstOf, read]

theorem dotenv_roundTrip_home :
    (loadDotenv (some (renderAll [(str "JAPLUS_HOME", str " /srv/ja plus ")])) .empty).environ.get?
      (str "JAPLUS_HOME") = some (str " /srv/ja plus ") := by
  refine dotenv_roundTrip [(str "JAPLUS_HOME", str " /srv/ja plus ")] (fun entry member => ?_) .empty
    (str "JAPLUS_HOME")
  obtain rfl := List.mem_singleton.mp member
  exact ⟨by decide, by decide, List.all_iff_forall_prop.mp (by decide), List.all_iff_forall_prop.mp (by decide),
    by rintro _ ⟨⟩; decide, by rintro _ ⟨⟩; decide⟩

end JaplusProxy.Manager.Dotenv
