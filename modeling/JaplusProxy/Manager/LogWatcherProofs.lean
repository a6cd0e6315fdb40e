import JaplusProxy.Manager.LogWatcher

/-! What a poll loses. A line that raises takes the lines after it along; a read that ends
inside a line makes two lines of it. -/
namespace JaplusProxy.Manager.LogWatcher
open PyString PyRegex

/-! ### Lines -/

/-- The lines that are parsed. -/
def seenLines (lines : List Str) : List Str := (lines.map strip).filter (· ≠ [])

def seen (text : Str) : List Str := seenLines (text.splitOn '\n')

/-- The events of a line by itself. -/
def lineEvents (lower : Str → Str) (line : Str) : List LogEvent :=
  match parseLine lower line with
  | .ok events => events
  | .error _ => []

@[simp] theorem seenLines_nil : seenLines [] = [] := rfl

theorem seenLines_append (lines more : List Str) : seenLines (lines ++ more) = seenLines lines ++ seenLines more := by
  rw [seenLines, List.map_append, List.filter_append, seenLines, seenLines]

theorem seenLines_single (line : Str) : seenLines [line] = if strip line = [] then [] else [strip line] := by
  by_cases blank : strip line = [] <;> simp [seenLines, blank]

theorem seenLines_cons (line : Str) (lines : List Str) :
    seenLines (line :: lines) = seenLines [line] ++ seenLines lines := seenLines_append [line] lines

/-- Where no line raises, every line is parsed. -/
theorem pollLines_quiet (quiet : ∀ line ∈ seenLines lines, ∀ e, parseLine lower line ≠ .error e) :
    pollLines lower lines = ⟨(seenLines lines).flatMap (lineEvents lower), none⟩ := by
  induction lines with
  | nil => rfl
  | cons raw lines ih =>
    rw [seenLines_cons] at quiet ⊢
    have rest := ih fun line member => quiet line (List.mem_append_right _ member)
    rw [pollLines]
    by_cases blank : strip raw = []
    · rw [if_pos blank, rest, seenLines_single, if_pos blank, List.nil_append]
    · rw [if_neg blank, seenLines_single, if_neg blank]
      have here := quiet (strip raw) (List.mem_append_left _ (by rw [seenLines_single, if_neg blank]; exact .head _))
      cases parsed : parseLine lower (strip raw) with
      | error e => exact absurd parsed (here e)
      | ok events =>
        have own : lineEvents lower (strip raw) = events := by rw [lineEvents, parsed]
        simp only [rest, List.singleton_append, List.flatMap_cons, own]

/-! ### Lines that raise -/

/-- A keyword of a player, alone or run together with what should follow it. -/
structure Bare (line : Str) : Prop where
  keyword : str "ClientDisconnect:" <+: line ∨ str "ClientBegin:" <+: line
  alone : (split line).length < 2

theorem playerLine_raises (type : EventType) (line : Str) :
    (∃ e, playerLine type line = .error e) ↔ (split line).length < 2 := by
  rw [playerLine]
  cases second : (split line)[1]? with
  | none =>
    have short := List.getElem?_eq_none_iff.mp second
    exact ⟨fun _ => by omega, fun _ => ⟨.indexError, rfl⟩⟩
  | some id =>
    obtain ⟨long, _⟩ := List.getElem?_eq_some_iff.mp second
    simp only [reduceCtorEq, exists_false, false_iff]
    omega

/-- No pattern matches a line of these keywords, and no keyword begins another. -/
theorem parseLine_keyword (keyword : str "ClientDisconnect:" <+: line ∨ str "ClientBegin:" <+: line) :
    ∃ type, parseLine lower line = playerLine type line := by
  have digit : isDecimal 'C' = false := by decide
  have other (verb : String) : ∀ rest, firstMatch (chatRe verb) ('C' :: rest) = none := fun rest =>
    firstMatch_group_refused digit true _ rest
  have kill : ∀ rest, firstMatch killRe ('C' :: rest) = none := fun rest =>
    firstMatch_text_refused (by simp [str]) _
  have words : ∃ rest, line = 'C' :: rest := by
    rcases keyword with ⟨rest, rfl⟩ | ⟨rest, rfl⟩
    · exact ⟨_, rfl⟩
    · exact ⟨_, rfl⟩
  have prefixes : parseLine lower line = parsePrefix line := by
    obtain ⟨rest, rfl⟩ := words
    rw [parseLine, playerRe, teamRe, other, other, kill]
  rw [prefixes]
  rcases keyword with ⟨rest, rfl⟩ | ⟨rest, rfl⟩
  · exact ⟨.playerDisconnect, by simp [parsePrefix, str]⟩
  · exact ⟨.playerBegin, by simp [parsePrefix, str]⟩

theorem parsePrefix_raises (raised : parsePrefix line = .error e) :
    str "ClientDisconnect:" <+: line ∨ str "ClientBegin:" <+: line := by
  rw [parsePrefix] at raised
  split_ifs at raised with _ _ disconnect begin'
  · exact .inl disconnect
  · exact .inr begin'

theorem parseLine_raises_iff (lower : Str → Str) (line : Str) : (∃ e, parseLine lower line = .error e) ↔ Bare line := by
  constructor
  · rintro ⟨e, raised⟩
    have keyword : str "ClientDisconnect:" <+: line ∨ str "ClientBegin:" <+: line := by
      rw [parseLine] at raised
      split at raised
      · contradiction
      · split at raised
        · contradiction
        · split at raised
          · contradiction
          · exact parsePrefix_raises raised
    obtain ⟨type, parsed⟩ := parseLine_keyword keyword
    exact ⟨keyword, (playerLine_raises type line).mp ⟨e, parsed ▸ raised⟩⟩
  · rintro ⟨keyword, alone⟩
    obtain ⟨type, parsed⟩ := parseLine_keyword keyword
    rw [parsed]
    exact (playerLine_raises type line).mpr alone

theorem pollLines_completes (completes : (pollLines lower lines).raised = none) :
    ∀ line ∈ seenLines lines, ∀ e, parseLine lower line ≠ .error e := by
  induction lines with
  | nil => simp
  | cons raw lines ih =>
    rw [pollLines] at completes
    rw [seenLines_cons, seenLines_single]
    by_cases blank : strip raw = []
    · rw [if_pos blank] at completes ⊢
      exact ih completes
    · rw [if_neg blank] at completes ⊢
      cases parsed : parseLine lower (strip raw) with
      | error e => simp [parsed] at completes
      | ok events =>
        rw [parsed] at completes
        intro line member e raised
        rcases List.mem_cons.mp member with rfl | member
        · rw [parsed] at raised
          cases raised
        · exact ih completes line member e raised

/-- A poll that gets through all its lines and dispatches for each the events that it
gives by itself, whatever the line is. -/
structure LosesNothing (lower : Str → Str) (lines : List Str) : Prop where
  completes : (pollLines lower lines).raised = none
  others : ∀ before line after, lines = before ++ line :: after → (pollLines lower lines).events =
    (pollLines lower before).events ++ (pollLines lower [line]).events ++ (pollLines lower after).events

/-- A poll loses nothing unless one of its lines is a bare keyword. -/
theorem poll_losesNothing_iff (lower : Str → Str) (lines : List Str) :
    LosesNothing lower lines ↔ ∀ raw ∈ lines, ¬ Bare (strip raw) := by
  constructor
  · rintro ⟨completes, _⟩ raw member bare
    obtain ⟨e, raised⟩ := (parseLine_raises_iff lower _).mpr bare
    have filled : strip raw ≠ [] := by
      intro empty
      have keyword := bare.keyword
      simp [empty, str] at keyword
    have parsed : strip raw ∈ seenLines lines := List.mem_filter.mpr ⟨List.mem_map_of_mem member, by simpa using filled⟩
    exact pollLines_completes completes _ parsed e raised
  · intro plain
    have quiet {part : List Str} (inside : part ⊆ lines) : ∀ line ∈ seenLines part, ∀ e, parseLine lower line ≠ .error e := by
      intro line member e raised
      obtain ⟨raw, rawMember, rfl⟩ := List.mem_map.mp (List.mem_of_mem_filter member)
      exact plain raw (inside rawMember) ((parseLine_raises_iff lower _).mp ⟨e, raised⟩)
    refine ⟨by rw [pollLines_quiet (quiet fun _ => id)], ?_⟩
    rintro before line after rfl
    rw [pollLines_quiet (quiet fun _ => id), pollLines_quiet (quiet (by simp)), pollLines_quiet (quiet (by simp)),
      pollLines_quiet (quiet (by simp)), seenLines_append, seenLines_cons, List.flatMap_append, List.flatMap_append,
      List.append_assoc]

/-- The end of the round behind it is never dispatched. -/
theorem poll_bare_keyword : pollLines id [str "ClientBegin:", str "Exit:"] = ⟨[], some .indexError⟩ ∧
    ¬ LosesNothing id [str "ClientBegin:", str "Exit:"] := by
  have lost : pollLines id [str "ClientBegin:", str "Exit:"] = ⟨[], some .indexError⟩ := by decide
  refine ⟨lost, fun nothing => ?_⟩
  have completes := nothing.completes
  rw [lost] at completes
  cases completes

/-! ### Cuts -/

/-- What a text has in front of its first newline. -/
def firstLine (text : Str) : Str := text.takeWhile dot

/-- What it has behind its last one. -/
def lastLine (text : Str) : Str := text.rtakeWhile dot

/-- No read ends inside a line: there is only white space in front of the cut, or only
white space behind it. -/
def WholeLines : List Str → Prop
  | [] => True
  | piece :: rest => (Blank (lastLine piece) ∨ Blank (firstLine rest.flatten)) ∧ WholeLines rest

theorem seen_newline (front back : Str) : seen (front ++ '\n' :: back) = seen front ++ seen back := by
  rw [seen, List.splitOn_append_cons_self, seenLines_append, seen, seen]

theorem seen_line (free : '\n' ∉ line) : seen line = seenLines [line] := by
  rw [seen, List.splitOn_eq_singleton free]

theorem lastLine_free (text : Str) : '\n' ∉ lastLine text := fun member =>
  absurd (List.mem_rtakeWhile_imp member) (by decide)

theorem firstLine_free (text : Str) : '\n' ∉ firstLine text := fun member =>
  absurd (List.mem_takeWhile_imp member) (by decide)

theorem newline_of_not_dot (other : ¬ dot c = true) : c = '\n' := by simpa [dot] using other

theorem lastLine_cut (text : Str) : text = lastLine text ∨ ∃ front, text = front ++ '\n' :: lastLine text := by
  have cut : text.rdropWhile dot ++ lastLine text = text := List.rdropWhile_append_rtakeWhile
  by_cases only : text.rdropWhile dot = []
  · rw [only, List.nil_append] at cut
    exact .inl cut.symm
  · have newline := newline_of_not_dot (List.rdropWhile_last_not _ text only)
    refine .inr ⟨(text.rdropWhile dot).dropLast, ?_⟩
    rw [← List.singleton_append, ← List.append_assoc, ← newline, List.dropLast_append_getLast]
    exact cut.symm

theorem firstLine_cut (text : Str) : text = firstLine text ∨ ∃ back, text = firstLine text ++ '\n' :: back := by
  have cut : firstLine text ++ text.dropWhile dot = text := List.takeWhile_append_dropWhile
  by_cases only : text.dropWhile dot = []
  · rw [only, List.append_nil] at cut
    exact .inl cut.symm
  · have newline := newline_of_not_dot (Bool.eq_false_iff.mp (List.head_dropWhile_not dot only))
    refine .inr ⟨(text.dropWhile dot).tail, ?_⟩
    rw [← newline, List.cons_head_tail]
    exact cut.symm

/-- A cut goes through one line at most. -/
theorem seen_cut (front back : Str) : ∃ lines more, seen front = lines ++ seenLines [lastLine front] ∧
    seen back = seenLines [firstLine back] ++ more ∧
    seen (front ++ back) = lines ++ seenLines [lastLine front ++ firstLine back] ++ more := by
  have left : ∃ lines, ∀ t, seen (front ++ t) = lines ++ seen (lastLine front ++ t) := by
    rcases lastLine_cut front with whole | ⟨before, cut⟩
    · exact ⟨[], fun t => by rw [← whole, List.nil_append]⟩
    · refine ⟨seen before, fun t => ?_⟩
      have shape : front ++ t = before ++ '\n' :: (lastLine front ++ t) := by
        conv_lhs => rw [cut]
        simp
      rw [shape, seen_newline]
  have right : ∃ more, ∀ t, '\n' ∉ t → seen (t ++ back) = seenLines [t ++ firstLine back] ++ more := by
    rcases firstLine_cut back with whole | ⟨after, cut⟩
    · refine ⟨[], fun t free => ?_⟩
      rw [← whole, List.append_nil, seen_line]
      rw [whole, List.mem_append, not_or]
      exact ⟨free, firstLine_free back⟩
    · refine ⟨seen after, fun t free => ?_⟩
      have shape : t ++ back = (t ++ firstLine back) ++ '\n' :: after := by
        conv_lhs => rw [cut]
        simp
      rw [shape, seen_newline, seen_line]
      rw [List.mem_append, not_or]
      exact ⟨free, firstLine_free back⟩
  obtain ⟨lines, before⟩ := left
  obtain ⟨more, after⟩ := right
  refine ⟨lines, more, ?_, ?_, ?_⟩
  · have alone := before []
    rwa [List.append_nil, List.append_nil, seen_line (lastLine_free front)] at alone
  · simpa using after [] (by simp)
  · rw [before, after _ (lastLine_free front), List.append_assoc]

theorem seen_append_whole (whole : Blank (lastLine front) ∨ Blank (firstLine back)) :
    seen (front ++ back) = seen front ++ seen back := by
  obtain ⟨lines, more, left, right, both⟩ := seen_cut front back
  have joined : seenLines [lastLine front ++ firstLine back] =
      seenLines [lastLine front] ++ seenLines [firstLine back] := by
    simp only [seenLines_single]
    rcases whole with blank | blank
    · rw [strip_append_left blank, if_pos (strip_eq_nil.mpr blank), List.nil_append]
    · rw [strip_append_right blank, if_pos (strip_eq_nil.mpr blank), List.append_nil]
  rw [both, left, right, joined, List.append_assoc, List.append_assoc, List.append_assoc]

/-- A line that is cut counts twice. -/
theorem seen_append_cut (whole : ¬ (Blank (lastLine front) ∨ Blank (firstLine back))) :
    (seen front ++ seen back).length = (seen (front ++ back)).length + 1 := by
  obtain ⟨lines, more, left, right, both⟩ := seen_cut front back
  rw [not_or] at whole
  have joined : ¬ Blank (lastLine front ++ firstLine back) := fun blank =>
    whole.1 fun c member => blank c (List.mem_append_left _ member)
  have single {line : Str} (solid : ¬ Blank line) : (seenLines [line]).length = 1 := by
    rw [seenLines_single, if_neg (mt strip_eq_nil.mp solid), List.length_singleton]
  simp only [left, right, both, List.length_append, single whole.1, single whole.2, single joined]
  omega

theorem seen_flatten_length (pieces : List Str) : (seen pieces.flatten).length ≤ (pieces.flatMap seen).length := by
  induction pieces with
  | nil => simp [seen, seenLines, strip, stripOf]
  | cons piece rest ih =>
    rw [List.flatten_cons, List.flatMap_cons, List.length_append]
    by_cases whole : Blank (lastLine piece) ∨ Blank (firstLine rest.flatten)
    · rw [seen_append_whole whole, List.length_append]
      omega
    · have count := seen_append_cut whole
      rw [List.length_append] at count
      omega

/-- The lines parsed are those of the text exactly when no read ends inside a line. -/
theorem seen_flatten_iff (pieces : List Str) : pieces.flatMap seen = seen pieces.flatten ↔ WholeLines pieces := by
  induction pieces with
  | nil => exact ⟨fun _ => trivial, fun _ => rfl⟩
  | cons piece rest ih =>
    rw [List.flatten_cons, List.flatMap_cons, WholeLines]
    by_cases whole : Blank (lastLine piece) ∨ Blank (firstLine rest.flatten)
    · rw [seen_append_whole whole, List.append_cancel_left_eq, ih, and_iff_right whole]
    · refine ⟨fun same => ?_, fun both => absurd both.1 whole⟩
      have count := seen_append_cut whole
      have least := seen_flatten_length rest
      rw [← same, List.length_append, List.length_append] at count
      omega

/-! ### Runs of polls -/

theorem poll_eq (lower : Str → Str) (text : Str) : poll lower text = pollLines lower (text.splitOn '\n') := by
  rw [poll]
  split
  · rename_i empty
    rw [empty]
    rfl
  · rfl

theorem pollAll_whole (quiet : ∀ line ∈ seen pieces.flatten, ∀ e, parseLine lower line ≠ .error e)
    (whole : WholeLines pieces) : pollAll lower pieces = (seen pieces.flatten).flatMap (lineEvents lower) := by
  have lines := (seen_flatten_iff pieces).mpr whole
  have each : ∀ piece ∈ pieces, (poll lower piece).events = (seen piece).flatMap (lineEvents lower) := by
    intro piece member
    rw [poll_eq, pollLines_quiet fun line inside => quiet line (lines ▸ List.mem_flatMap.mpr ⟨piece, member, inside⟩)]
    rfl
  rw [pollAll, List.flatMap_congr each, ← lines, List.flatMap_assoc]

/-- Two runs over a text dispatch the same events when no read of theirs ends inside a
line; and such a read always makes lines of its own. -/
theorem pollAll_cuts (lower : Str → Str) (text : Str)
    (quiet : ∀ line ∈ seen text, ∀ e, parseLine lower line ≠ .error e) :
    (∀ pieces pieces', pieces.flatten = text → pieces'.flatten = text → WholeLines pieces → WholeLines pieces' →
      pollAll lower pieces = pollAll lower pieces') ∧
    ∀ pieces, pieces.flatten = text → (pieces.flatMap seen = seen text ↔ WholeLines pieces) := by
  constructor
  · rintro pieces pieces' rfl same whole whole'
    rw [pollAll_whole quiet whole, pollAll_whole (same ▸ quiet) whole', same]
  · rintro pieces rfl
    exact seen_flatten_iff pieces

theorem exit_quiet : ∀ line ∈ seen (str "Exit:\n"), ∀ e, parseLine id line ≠ .error e := by
  have lines : seen (str "Exit:\n") = [str "Exit:"] := by decide
  have parsed : parseLine id (str "Exit:") = .ok [⟨.roundExit, []⟩] := by decide
  rw [lines]
  intro line member e raised
  obtain rfl := List.mem_singleton.mp member
  rw [parsed] at raised
  cases raised

theorem pollAll_cuts_exit :
    (∀ pieces pieces', pieces.flatten = str "Exit:\n" → pieces'.flatten = str "Exit:\n" → WholeLines pieces →
      WholeLines pieces' → pollAll id pieces = pollAll id pieces') ∧
    ∀ pieces, pieces.flatten = str "Exit:\n" → (pieces.flatMap seen = seen (str "Exit:\n") ↔ WholeLines pieces) :=
  pollAll_cuts id (str "Exit:\n") exit_quiet

/-- The end of a round is lost when a poll reads half of its line. -/
theorem pollAll_lost : (∀ line ∈ seen (str "Exit:\n"), ∀ e, parseLine id line ≠ .error e) ∧
    pollAll id [str "Exit:\n"] = [⟨.roundExit, []⟩] ∧ pollAll id [str "Ex", str "it:\n"] = [] :=
  ⟨exit_quiet, by decide, by decide⟩

end JaplusProxy.Manager.LogWatcher
