import JaplusProxy.PyString
import Mathlib.Data.List.DropRight

/-! Python strings as texts: white space, fields and lines. -/
namespace PyString

/-- `c.isspace()` -/
def isSpace (c : Char) : Bool :=
  let n := c.toNat
  9 ≤ n && n ≤ 13 || 28 ≤ n && n ≤ 32 || n == 0x85 || n == 0xA0 || n == 0x1680 || 0x2000 ≤ n && n ≤ 0x200A ||
    n == 0x2028 || n == 0x2029 || n == 0x202F || n == 0x205F || n == 0x3000

/-- The zeros of the decimal digits; each begins a range of ten. -/
def decimalZeros : List Nat :=
  [0x30, 0x660, 0x6F0, 0x7C0, 0x966, 0x9E6, 0xA66, 0xAE6, 0xB66, 0xBE6, 0xC66, 0xCE6, 0xD66, 0xDE6, 0xE50, 0xED0,
    0xF20, 0x1040, 0x1090, 0x17E0, 0x1810, 0x1946, 0x19D0, 0x1A80, 0x1A90, 0x1B50, 0x1BB0, 0x1C40, 0x1C50, 0xA620,
    0xA8D0, 0xA900, 0xA9D0, 0xA9F0, 0xAA50, 0xABF0, 0xFF10, 0x104A0, 0x10D30, 0x11066, 0x110F0, 0x11136, 0x111D0,
    0x112F0, 0x11450, 0x114D0, 0x11650, 0x116C0, 0x11730, 0x118E0, 0x11950, 0x11C50, 0x11D50, 0x11DA0, 0x16A60,
    0x16AC0, 0x16B50, 0x1D7CE, 0x1D7D8, 0x1D7E2, 0x1D7EC, 0x1D7F6, 0x1E140, 0x1E2F0, 0x1E950, 0x1FBF0]

/-- `c.isdecimal()` -/
def isDecimal (c : Char) : Bool := decimalZeros.any fun first => first ≤ c.toNat && c.toNat < first + 10

/-- `s.strip(..)` of the characters that meet the test. -/
def stripOf (drops : Char → Bool) (s : Str) : Str := (s.dropWhile drops).rdropWhile drops

/-- `s.strip()` -/
def strip (s : Str) : Str := stripOf isSpace s

/-- `s.split()` -/
def split (s : Str) : List Str := (s.splitOnP isSpace).filter (· ≠ [])

/-- `s.split(None, 1)` -/
def splitOnce (s : Str) : List Str :=
  match s.dropWhile isSpace with
  | [] => []
  | c :: t =>
    let first := (c :: t).takeWhile (!isSpace ·)
    let rest := ((c :: t).drop first.length).dropWhile isSpace
    if rest = [] then [first] else [first, rest]

/-- `s.rsplit(c, 1)[0]` -/
def beforeLast (c : Char) (s : Str) : Str := if c ∈ s then (s.rdropWhile (· ≠ c)).dropLast else s

/-- `s.split(sep)` for a `sep` that is not empty; the first `skip` characters left belong
to a separator. -/
def splitBy (sep : Str) : Nat → Str → List Str
  | _, [] => [[]]
  | skip + 1, _ :: s => splitBy sep skip s
  | 0, c :: s =>
    if sep <+: c :: s then [] :: splitBy sep (sep.length - 1) s
    else
      match splitBy sep 0 s with
      | [] => [[c]]
      | piece :: pieces => (c :: piece) :: pieces

/-- What ends a line. -/
def isLineBreak (c : Char) : Bool :=
  let n := c.toNat
  10 ≤ n && n ≤ 13 || 28 ≤ n && n ≤ 30 || n == 0x85 || n == 0x2028 || n == 0x2029

/-- `s.splitlines()`, where every `\r\n` was read as `\n`. -/
def splitlines : Str → List Str
  | [] => []
  | c :: s =>
    if isLineBreak c then [] :: splitlines s
    else
      match splitlines s with
      | [] => [[c]]
      | line :: lines => (c :: line) :: lines

/-! ### White space -/

/-- Nothing but white space. -/
def Blank (s : Str) : Prop := ∀ c ∈ s, isSpace c = true

theorem strip_eq_nil : strip s = [] ↔ Blank s := by
  rw [strip, stripOf, List.rdropWhile_eq_nil_iff]
  constructor
  · intro all c member
    by_contra solid
    have kept : s.dropWhile isSpace ≠ [] := by
      rw [ne_eq, List.dropWhile_eq_nil_iff]
      exact fun every => solid (every c member)
    have head := List.head_dropWhile_not isSpace kept
    rw [all _ (List.head_mem kept)] at head
    contradiction
  · exact fun all c member => all c ((List.dropWhile_sublist _).subset member)

theorem strip_append_left (blank : Blank b) (s : Str) : strip (b ++ s) = strip s := by
  rw [strip, strip, stripOf, stripOf, List.dropWhile_append_of_pos blank]

theorem strip_append_right (blank : Blank b) (s : Str) : strip (s ++ b) = strip s := by
  have back (t : Str) : (t ++ b).rdropWhile isSpace = t.rdropWhile isSpace := by
    rw [List.rdropWhile, List.rdropWhile, List.reverse_append,
      List.dropWhile_append_of_pos fun c member => blank c (List.mem_reverse.mp member)]
  rw [strip, strip, stripOf, stripOf, List.dropWhile_append]
  split
  · rename_i empty
    have none : s.dropWhile isSpace = [] := by simpa using empty
    have first := back []
    rw [List.nil_append] at first
    rw [none, ← first, List.rdropWhile_eq_nil_iff.mpr blank, List.rdropWhile_eq_nil_iff]
    exact fun c member => blank c ((List.dropWhile_sublist _).subset member)
  · exact back _

/-- Nothing is stripped where both ends stay. -/
theorem stripOf_ends {drops : Char → Bool} (first : drops c = false) (last : drops d = false) (s : Str) :
    stripOf drops (c :: s ++ [d]) = c :: s ++ [d] := by
  rw [stripOf, List.cons_append, List.dropWhile_cons_of_neg (by simp [first]), ← List.cons_append,
    List.rdropWhile_concat_neg _ _ _ (by simp [last])]

/-! ### Lines -/

theorem splitlines_line {line : Str} (flat : ∀ c ∈ line, isLineBreak c = false) (rest : Str) :
    splitlines (line ++ '\n' :: rest) = line :: splitlines rest := by
  induction line with
  | nil => rfl
  | cons c line ih =>
    have here := flat c (.head _)
    rw [List.cons_append, splitlines, if_neg (by simp [here]), ih fun d member => flat d (.tail _ member)]

theorem mem_splitlines {s : Str} (member : line ∈ splitlines s) (inside : c ∈ line) : c ∈ s := by
  induction s generalizing line with
  | nil => cases member
  | cons d s ih =>
    rw [splitlines] at member
    split at member
    · rcases List.mem_cons.mp member with rfl | later
      · cases inside
      · exact .tail _ (ih later inside)
    · split at member
      · obtain rfl := List.mem_singleton.mp member
        exact List.mem_singleton.mp inside ▸ .head _
      · rename_i first lines known
        rcases List.mem_cons.mp member with rfl | later
        · rcases List.mem_cons.mp inside with rfl | inside
          · exact .head _
          · exact .tail _ (ih (known ▸ .head _) inside)
        · exact .tail _ (ih (known ▸ .tail _ later) inside)

theorem stripOf_subset (drops : Char → Bool) (s : Str) : stripOf drops s ⊆ s := fun _ member =>
  (List.dropWhile_sublist _).subset ((List.rdropWhile_prefix _ _).subset member)

theorem splitlines_flatMap (lines : List Str) (flat : ∀ line ∈ lines, ∀ c ∈ line, isLineBreak c = false) :
    splitlines (lines.flatMap fun line => line ++ ['\n']) = lines := by
  induction lines with
  | nil => rfl
  | cons line lines ih =>
    rw [List.flatMap_cons, List.append_assoc, List.singleton_append, splitlines_line (flat line (.head _)),
      ih fun other member => flat other (.tail _ member)]

end PyString
