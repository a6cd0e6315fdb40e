import JaplusProxy.PyDict
import JaplusProxy.PyString

/-! Placeholders `[key]` in a text: filled in all at once, and one key after another by a
replacement over the whole text so far. -/
namespace Placeholders
open PyString PyDict

/-- `"[%s]" % key` -/
def bracket (key : Str) : Str := '[' :: key ++ [']']

inductive Piece where
  | char (c : Char)
  | hole (key : Str)
  deriving DecidableEq

/-- A placeholder without a value stays. -/
def Piece.text (values : Str → Option Str) : Piece → Str
  | .char c => [c]
  | .hole key => (values key).getD (bracket key)

/-- All values at once. -/
def fill (values : Str → Option Str) (pieces : List Piece) : Str := pieces.flatMap (Piece.text values)

/-- The characters left, of which the first `skip` belong to a placeholder already found. -/
def parseFrom (keys : List Str) : Nat → Str → List Piece
  | _, [] => []
  | skip + 1, _ :: s => parseFrom keys skip s
  | 0, c :: s =>
    match keys.find? (bracket · <+: c :: s) with
    | some key => .hole key :: parseFrom keys (key.length + 1) s
    | none => .char c :: parseFrom keys 0 s

/-- The placeholders of the keys in a template. -/
def parse (keys : List Str) (template : Str) : List Piece := parseFrom keys 0 template

/-- One key after another. -/
def chain (items : List (Str × Str)) (text : Str) : Str :=
  items.foldl (fun text item => replace text (bracket item.1) item.2) text

/-- Whatever reads `[key]` in the text is one of the template's placeholders. -/
def OnlyHoles (values : Str → Option Str) (pieces : List Piece) (key text : Str) : Prop :=
  ∀ left right, text = left ++ bracket key ++ right →
    ∃ before after, pieces = before ++ .hole key :: after ∧ fill values before = left

/-- No step of the chain replaces anything that came in with a value. -/
def NeverExpands (pieces : List Piece) (items : List (Str × Str)) : Prop :=
  ∀ done key value rest, items = done ++ (key, value) :: rest →
    OnlyHoles (find? done) pieces key (chain done (fill (fun _ => none) pieces))

/-- The values but that of one key. -/
def others (items : List (Str × Str)) (key k : Str) : Option Str := if k = key then none else find? items k

/-- With all other values filled in, a key is to be read only at its own placeholders. -/
def Isolated (pieces : List Piece) (items : List (Str × Str)) : Prop :=
  ∀ key ∈ items.map Prod.fst, OnlyHoles (others items key) pieces key (fill (others items key) pieces)

/-- Each place where the key is to be read is looked at. -/
theorem onlyHoles_iff : OnlyHoles values pieces key text ↔
    ∀ i < text.length, bracket key <+: text.drop i →
      ∃ j < pieces.length, pieces[j]? = some (.hole key) ∧ fill values (pieces.take j) = text.take i := by
  constructor
  · rintro only i _ ⟨right, reads⟩
    have split : text = text.take i ++ bracket key ++ right := by
      rw [List.append_assoc, reads, List.take_append_drop]
    obtain ⟨before, after, rfl, front⟩ := only _ right split
    exact ⟨before.length, by simp, by simp, by rwa [List.take_left]⟩
  · rintro placed left right rfl
    obtain ⟨j, _, hole, front⟩ := placed left.length (by simp [bracket])
      ⟨right, by rw [List.append_assoc, List.drop_left]⟩
    refine ⟨pieces.take j, pieces.drop (j + 1), ?_, by rw [front, List.append_assoc, List.take_left]⟩
    obtain ⟨within, here⟩ := List.getElem?_eq_some_iff.mp hole
    rw [← here, List.getElem_cons_drop, List.take_append_drop]

instance : Decidable (OnlyHoles values pieces key text) := decidable_of_iff _ onlyHoles_iff.symm

instance (items : List (Str × Str)) : Decidable (Isolated pieces items) :=
  inferInstanceAs (Decidable (∀ key ∈ items.map Prod.fst,
    OnlyHoles (others items key) pieces key (fill (others items key) pieces)))

/-- A key without brackets. -/
def Plain (key : Str) : Prop := '[' ∉ key ∧ ']' ∉ key

instance (key : Str) : Decidable (Plain key) := inferInstanceAs (Decidable ('[' ∉ key ∧ ']' ∉ key))

variable {values wider : Str → Option Str} {pieces : List Piece} {items order : List (Str × Str)}

@[simp] theorem fill_nil (values : Str → Option Str) : fill values [] = [] := rfl

@[simp] theorem fill_cons (values : Str → Option Str) (piece : Piece) (pieces : List Piece) :
    fill values (piece :: pieces) = piece.text values ++ fill values pieces := rfl

@[simp] theorem text_char (values : Str → Option Str) (c : Char) : (Piece.char c).text values = [c] := rfl

theorem text_unfilled (unfilled : values key = none) : (Piece.hole key).text values = bracket key := by
  rw [Piece.text, unfilled, Option.getD_none]

theorem text_filled (filled : values key = some value) : (Piece.hole key).text values = value := by
  rw [Piece.text, filled, Option.getD_some]

/-! ### Parsing -/

theorem fill_parseFrom (keys : List Str) (skip : Nat) (s : Str) :
    fill (fun _ => none) (parseFrom keys skip s) = s.drop skip := by
  induction s generalizing skip with
  | nil => cases skip <;> rfl
  | cons c s ih =>
    cases skip with
    | succ skip => exact ih skip
    | zero =>
      rw [parseFrom, List.drop_zero]
      split
      · rename_i key found
        obtain ⟨rest, whole⟩ : bracket key <+: c :: s := by simpa using List.find?_some found
        have tail : key ++ [']'] ++ rest = s := (List.cons.inj whole).2
        have dropped : s.drop (key.length + 1) = rest := by
          rw [← tail]
          exact List.drop_left' (by simp)
        rw [fill_cons, text_unfilled rfl, ih, dropped, whole]
      · rw [fill_cons, ih]
        rfl

/-- Nothing is lost in parsing. -/
theorem fill_parse (keys : List Str) (template : Str) : fill (fun _ => none) (parse keys template) = template :=
  fill_parseFrom keys 0 template

theorem parseFrom_hole {keys : List Str} (member : Piece.hole key ∈ parseFrom keys skip s) : key ∈ keys := by
  induction s generalizing skip with
  | nil => cases skip <;> simp [parseFrom] at member
  | cons c s ih =>
    cases skip with
    | succ skip => exact ih member
    | zero =>
      rw [parseFrom] at member
      split at member
      · rename_i found
        rcases List.mem_cons.mp member with same | later
        · exact Piece.hole.inj same ▸ List.mem_of_find?_eq_some found
        · exact ih later
      · rcases List.mem_cons.mp member with same | later
        · cases same
        · exact ih later

/-! ### One step of the chain -/

/-- No match begins in the text in front. -/
theorem replace_skip (passed : ∀ left right, front = left ++ right → right ≠ [] → ¬ old <+: right ++ s) (new : Str) :
    replace (front ++ s) old new = front ++ replace s old new := by
  induction front with
  | nil => rfl
  | cons c front ih =>
    have here : ¬ old <+: c :: (front ++ s) := passed [] (c :: front) rfl (by simp)
    rw [replace, List.cons_append, replaceFrom, if_neg here]
    exact congrArg (c :: ·) (ih fun left right whole => passed (c :: left) right (congrArg _ whole))

theorem OnlyHoles.head (only : OnlyHoles values (piece :: pieces) key (fill values (piece :: pieces)))
    (text : piece.text values = left ++ right) (nonempty : right ≠ [])
    (reads : bracket key <+: right ++ fill values pieces) : piece = .hole key := by
  obtain ⟨rest, whole⟩ := reads
  obtain ⟨before, after, split, filled⟩ :=
    only left rest (by rw [fill_cons, text, List.append_assoc, List.append_assoc, whole])
  cases before with
  | nil => exact (List.cons.inj split).1
  | cons first before =>
    -- the placeholder would stand behind the piece that its text begins in
    obtain ⟨rfl, _⟩ := List.cons.inj split
    have length := congrArg List.length filled
    have solid := List.length_pos_iff.mpr nonempty
    rw [fill_cons, text, List.length_append, List.length_append] at length
    omega

theorem OnlyHoles.tail (unfilled : values key = none)
    (only : OnlyHoles values (piece :: pieces) key (fill values (piece :: pieces))) :
    OnlyHoles values pieces key (fill values pieces) := by
  intro left right whole
  obtain ⟨before, after, split, filled⟩ :=
    only (piece.text values ++ left) right (by rw [fill_cons, whole]; simp only [List.append_assoc])
  cases before with
  | nil =>
    obtain ⟨rfl, _⟩ := List.cons.inj split
    rw [text_unfilled unfilled] at filled
    cases filled
  | cons first before =>
    obtain ⟨rfl, rest⟩ := List.cons.inj split
    exact ⟨before, after, rest, List.append_cancel_left filled⟩

/-- A replacement fills the placeholders of the key where nothing else reads like one. -/
theorem replace_fill (unfilled : values key = none) (only : OnlyHoles values pieces key (fill values pieces))
    (value : Str) :
    replace (fill values pieces) (bracket key) value = fill (fun k => if k = key then some value else values k) pieces := by
  induction pieces with
  | nil => rfl
  | cons piece pieces ih =>
    have rest := ih (only.tail unfilled)
    by_cases here : piece = .hole key
    · subst here
      rw [fill_cons, fill_cons, text_unfilled unfilled, replace_append (by simp [bracket]), rest,
        text_filled (if_pos rfl)]
    · have same : piece.text (fun k => if k = key then some value else values k) = piece.text values := by
        cases piece with
        | char c => rfl
        | hole k =>
          have other : k ≠ key := fun same => here (congrArg _ same)
          simp only [Piece.text, if_neg other]
      rw [fill_cons, fill_cons, same, ← rest]
      exact replace_skip (fun left right text nonempty reads => here (only.head text nonempty reads)) value

/-! ### Fewer values -/

theorem bracket_open (plain : Plain key) (text : bracket key = left ++ '[' :: rest) : left = [] := by
  cases left with
  | nil => rfl
  | cons c left =>
    have tail : key ++ [']'] = left ++ '[' :: rest := (List.cons.inj text).2
    have member : '[' ∈ key ++ [']'] := by simp [tail]
    simp [plain.1] at member

theorem takeWhile_key (plain : Plain key) (s : Str) : (key ++ ']' :: s).takeWhile (· ≠ ']') = key := by
  rw [List.takeWhile_append_of_pos fun c member => decide_eq_true (ne_of_mem_of_not_mem member plain.2)]
  simp

theorem bracket_front (plain : Plain key) (plain' : Plain key') (same : bracket key ++ s = bracket key' ++ t) :
    key = key' := by
  have tails : key ++ ']' :: s = key' ++ ']' :: t := by simpa [bracket] using same
  rw [← takeWhile_key plain s, tails, takeWhile_key plain']

theorem text_cases (below : ∀ k value, values k = some value → wider k = some value) (piece : Piece) :
    piece.text wider = piece.text values ∨ ∃ k, piece = .hole k ∧ values k = none := by
  cases piece with
  | char c => exact .inl rfl
  | hole k =>
    cases filled : values k with
    | none => exact .inr ⟨k, rfl, filled⟩
    | some value => exact .inl (by rw [text_filled (below k value filled), text_filled filled])

/-- What stands in front and opens no bracket stays when more is filled in. -/
theorem fill_front (below : ∀ k value, values k = some value → wider k = some value) (closed : '[' ∉ front)
    (text : fill values pieces = front ++ right) : front <+: fill wider pieces := by
  induction pieces generalizing front with
  | nil =>
    rw [fill_nil, List.nil_eq_append_iff] at text
    rw [text.1]
    exact List.nil_prefix
  | cons piece pieces ih =>
    rw [fill_cons] at text ⊢
    rcases text_cases below piece with same | ⟨k, rfl, unfilled⟩
    · rw [same]
      rcases List.append_eq_append_iff.mp text with ⟨later, rfl, rest⟩ | ⟨later, inside, _⟩
      · have later := ih (fun member => closed (List.mem_append_right _ member)) rest
        exact (List.prefix_append_right_inj _).mpr later
      · rw [inside, List.append_assoc]
        exact List.prefix_append ..
    · cases front with
      | nil => exact List.nil_prefix
      | cons c front =>
        rw [text_unfilled unfilled] at text
        obtain ⟨rfl, _⟩ := List.cons.inj text
        simp at closed

/-- A match that begins in a piece, with fewer values. -/
theorem OnlyHoles.head_narrow (below : ∀ k value, values k = some value → wider k = some value) (plain : Plain key)
    (plainPiece : ∀ k, piece = .hole k → Plain k)
    (only : OnlyHoles wider (piece :: pieces) key (fill wider (piece :: pieces)))
    (text : piece.text values = left ++ c :: inside)
    (reads : bracket key ++ right = c :: inside ++ fill values pieces) : piece = .hole key := by
  obtain ⟨rfl, _⟩ := List.cons.inj reads
  rcases text_cases below piece with same | ⟨k, rfl, unfilled⟩
  · refine only.head (same.trans text) (by simp) ?_
    rcases List.append_eq_append_iff.mp reads with ⟨more, contained, _⟩ | ⟨more, cut, remaining⟩
    · rw [contained, List.append_assoc]
      exact List.prefix_append ..
    · have tail : key ++ [']'] = inside ++ more := (List.cons.inj cut).2
      have closed : '[' ∉ more := by
        intro member
        have member : '[' ∈ key ++ [']'] := tail ▸ List.mem_append_right _ member
        simp [plain.1] at member
      rw [cut]
      exact (List.prefix_append_right_inj _).mpr (fill_front below closed remaining)
  · have plainHole := plainPiece k rfl
    rw [text_unfilled unfilled] at text
    rw [bracket_open plainHole text, List.nil_append] at text
    rw [← text] at reads
    rw [bracket_front plain plainHole reads]

/-- A piece in front, in which a match begins only if it is the key's placeholder. -/
theorem OnlyHoles.cons (unfilled : values key = none) (plain : Plain key)
    (head : ∀ left inside right, piece.text values = left ++ '[' :: inside →
      bracket key ++ right = '[' :: inside ++ fill values pieces → piece = .hole key)
    (later : OnlyHoles values pieces key (fill values pieces)) :
    OnlyHoles values (piece :: pieces) key (fill values (piece :: pieces)) := by
  have behind (left right : Str) (rest : fill values pieces = left ++ bracket key ++ right) :
      ∃ before after, piece :: pieces = before ++ .hole key :: after ∧ fill values before = piece.text values ++ left := by
    obtain ⟨before, after, split, filled⟩ := later left right rest
    exact ⟨piece :: before, after, by rw [split]; rfl, by rw [fill_cons, filled]⟩
  intro left right whole
  rw [fill_cons, List.append_assoc] at whole
  rcases List.append_eq_append_iff.mp whole with ⟨gap, rfl, rest⟩ | ⟨inside, text, rest⟩
  · exact behind gap right (by rw [rest, List.append_assoc])
  cases inside with
  | nil =>
    rw [List.append_nil] at text
    rw [List.nil_append] at rest
    simpa [text] using behind [] right rest.symm
  | cons c inside =>
    obtain ⟨rfl, _⟩ := List.cons.inj rest
    obtain rfl := head left inside right text rest
    rw [text_unfilled unfilled] at text
    exact ⟨[], pieces, rfl, (bracket_open plain text).symm⟩

theorem onlyHoles_nil (values : Str → Option Str) (key : Str) : OnlyHoles values [] key (fill values []) := by
  intro left right whole
  simp [bracket] at whole

/-- A key that is read only at its placeholders with some values filled in, is so with fewer. -/
theorem OnlyHoles.narrow (below : ∀ k value, values k = some value → wider k = some value)
    (unfilled : wider key = none) (plain : Plain key) (holes : ∀ k, .hole k ∈ pieces → Plain k)
    (only : OnlyHoles wider pieces key (fill wider pieces)) : OnlyHoles values pieces key (fill values pieces) := by
  have stays : values key = none := by
    cases filled : values key with
    | none => rfl
    | some value => cases unfilled.symm.trans (below key value filled)
  induction pieces with
  | nil => exact onlyHoles_nil values key
  | cons piece pieces ih =>
    have later := ih (fun k member => holes k (List.mem_cons_of_mem _ member)) (only.tail unfilled)
    have plainPiece (k : Str) (hole : piece = .hole k) : Plain k := holes k (hole ▸ List.mem_cons_self)
    exact .cons stays plain (fun _ _ _ text reads => only.head_narrow below plain plainPiece text reads) later

/-- No bracket but those of the placeholders. -/
theorem onlyHoles_closed (unfilled : values key = none) (plain : Plain key)
    (closed : ∀ piece ∈ pieces, piece ≠ .hole key → '[' ∉ piece.text values) :
    OnlyHoles values pieces key (fill values pieces) := by
  induction pieces with
  | nil => exact onlyHoles_nil values key
  | cons piece pieces ih =>
    refine .cons unfilled plain (fun left inside right text _ => ?_)
      (ih fun piece member => closed piece (List.mem_cons_of_mem _ member))
    by_contra other
    exact closed piece List.mem_cons_self other (by simp [text])

/-! ### The chain -/

theorem chain_concat (items : List (Str × Str)) (key value text : Str) :
    chain (items ++ [(key, value)]) text = replace (chain items text) (bracket key) value := by
  rw [chain, List.foldl_append]
  rfl

/-- Where each step hits the placeholders of its key alone, the chain fills them all in. -/
theorem chain_fill (once : (items.map Prod.fst).Nodup)
    (steps : ∀ done key value rest, items = done ++ (key, value) :: rest →
      chain done (fill (fun _ => none) pieces) = fill (find? done) pieces →
      OnlyHoles (find? done) pieces key (fill (find? done) pieces)) :
    chain items (fill (fun _ => none) pieces) = fill (find? items) pieces := by
  induction items using List.reverseRecOn with
  | nil => rfl
  | append_singleton done item ih =>
    obtain ⟨key, value⟩ := item
    obtain ⟨once, absent⟩ := once_split once
    have earlier := ih once fun front k v rest split same =>
      steps front k v (rest ++ [(key, value)]) (by rw [split]; simp) same
    have only := steps done key value [] rfl earlier
    rw [chain_concat, earlier, replace_fill (find?_none absent) only, find?_concat absent]

theorem NeverExpands.front (never : NeverExpands pieces (done ++ rest)) : NeverExpands pieces done :=
  fun earlier key value later split => never earlier key value (later ++ rest) (by rw [split]; simp)

theorem NeverExpands.chain_eq (once : (items.map Prod.fst).Nodup) (never : NeverExpands pieces items) :
    chain items (fill (fun _ => none) pieces) = fill (find? items) pieces :=
  chain_fill once fun done key value rest split same => same ▸ never done key value rest split

/-- A key put last sees all other values. -/
theorem NeverExpands.last (once : (items.map Prod.fst).Nodup) (member : (key, value) ∈ items)
    (never : ∀ order, order.Perm items → NeverExpands pieces order) :
    OnlyHoles (others items key) pieces key (fill (others items key) pieces) := by
  obtain ⟨front, back, rfl⟩ := List.append_of_mem member
  have perm : (front ++ back ++ [(key, value)]).Perm (front ++ (key, value) :: back) :=
    (List.perm_append_singleton _ _).trans List.perm_middle.symm
  have never := never _ perm
  obtain ⟨once', absent⟩ := once_split ((perm.map Prod.fst).nodup_iff.mpr once)
  have same : find? (front ++ back) = others (front ++ (key, value) :: back) key := by
    funext k
    rw [others, ← find?_perm once perm, find?_concat absent]
    split
    · rename_i here
      rw [here, find?_none absent]
    · rename_i other
      exact (if_neg other).symm
  rw [← same, ← never.front.chain_eq once']
  exact never (front ++ back) key value [] rfl

/-- Early steps of any order see less than all other values. -/
theorem Isolated.step (once : (items.map Prod.fst).Nodup) (plain : ∀ key ∈ items.map Prod.fst, Plain key)
    (holes : ∀ key, .hole key ∈ pieces → Plain key) (isolated : Isolated pieces items)
    (perm : (done ++ (key, value) :: rest).Perm items) :
    OnlyHoles (find? done) pieces key (fill (find? done) pieces) := by
  have member : key ∈ items.map Prod.fst := (perm.map _).subset (by simp)
  have absent := (once_split ((perm.map Prod.fst).nodup_iff.mpr once)).2
  refine (isolated key member).narrow (fun k x filled => ?_) (if_pos rfl) (plain key member) holes
  rw [others, ← find?_perm once perm, find?_append, filled, if_neg]
  · rfl
  · rintro rfl
    cases (find?_none absent).symm.trans filled

/-- Values without an opening bracket in a template that opens brackets for placeholders only. -/
theorem isolated_closed (plain : ∀ key ∈ items.map Prod.fst, Plain key)
    (holes : ∀ key, .hole key ∈ pieces → key ∈ items.map Prod.fst) (literal : .char '[' ∉ pieces)
    (closed : ∀ item ∈ items, '[' ∉ item.2) : Isolated pieces items := by
  intro key member
  refine onlyHoles_closed (if_pos rfl) (plain key member) fun piece inside other => ?_
  cases piece with
  | char c =>
    rw [text_char, List.mem_singleton]
    rintro rfl
    exact literal inside
  | hole k =>
    have apart : k ≠ key := fun same => other (congrArg _ same)
    obtain ⟨value, found⟩ := find?_some (holes k inside)
    rw [text_filled (by rw [others, if_neg apart, found])]
    exact closed _ (mem_of_find? found)

theorem neverExpands_iff_isolated (once : (items.map Prod.fst).Nodup) (plain : ∀ key ∈ items.map Prod.fst, Plain key)
    (holes : ∀ key, .hole key ∈ pieces → Plain key) :
    (∀ order, order.Perm items → NeverExpands pieces order) ↔ Isolated pieces items := by
  constructor
  · intro never key member
    obtain ⟨⟨_, value⟩, here, rfl⟩ := List.mem_map.mp member
    exact NeverExpands.last once here never
  · rintro isolated order perm done key value rest rfl
    have once' := (once_split ((perm.map Prod.fst).nodup_iff.mpr once)).1
    -- the text so far is the template with the values of `done` in it
    have text : chain done (fill (fun _ => none) pieces) = fill (find? done) pieces := by
      refine chain_fill once' fun front k v back split _ => ?_
      have earlier : (front ++ (k, v) :: (back ++ (key, value) :: rest)).Perm items := by simpa [split] using perm
      exact isolated.step once plain holes earlier
    rw [text]
    exact isolated.step once plain holes perm

end Placeholders
