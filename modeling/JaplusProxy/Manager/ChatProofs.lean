import Mathlib.Data.Bool.AllAny
import JaplusProxy.Manager.LogWatcherProofs

/-! Chat read back from the log. Whatever a message says, its line is told of the player
who wrote it. -/
namespace JaplusProxy.Manager.LogWatcher
open PyString PyRegex

/-- What a player says to all or to the team. The name does not hold the word that the log
puts behind it. -/
structure Chat where
  id : Str
  name : Str
  message : Str
  team : Bool
  digits : ∀ c ∈ id, isDecimal c = true
  named : name ≠ []
  numbered : id ≠ []
  said : message ≠ []
  flatName : '\n' ∉ name
  flatMessage : '\n' ∉ message
  first : ∀ c ∈ name.head?, isSpace c = false
  last : ∀ c ∈ name.getLast?, isSpace c = false
  plain : ¬ str "say:" <:+: name
  plainTeam : team = true → ¬ str "sayteam:" <:+: name

namespace Chat

def verb (chat : Chat) : String := if chat.team then "sayteam:" else "say:"

/-- `5: Padawan say: "hi"` -/
def line (chat : Chat) : Str :=
  chat.id ++ (str ":" ++ (' ' :: (chat.name ++ (' ' :: (str chat.verb ++
    (' ' :: (['"'] ++ (chat.message ++ ['"']))))))))

def event (lower : Str → Str) (chat : Chat) : LogEvent :=
  playerChatEvent lower chat.id chat.name chat.message chat.team

/-- Said to the team, but written so that the pattern of what is said to all matches too,
which is tried first. -/
def Imitates (chat : Chat) : Prop := chat.team = true ∧ ∃ front blank gap back,
  chat.message = front ++ blank :: (str "say:" ++ (gap ++ '"' :: back)) ∧ isSpace blank = true ∧
    Repeats isSpace gap ∧ back ≠ []

end Chat

/-! ### Characters -/

theorem isDecimal_not_isSpace (digit : isDecimal c = true) : isSpace c = false := by
  have solid : ∀ first ∈ decimalZeros, ∀ k < 10, isSpace (Char.ofNat (first + k)) = false := by decide
  obtain ⟨first, member, range⟩ := List.any_eq_true.mp digit
  simp only [Bool.and_eq_true, decide_eq_true_eq] at range
  have here := solid first member (c.toNat - first) (by omega)
  rwa [Nat.add_sub_cancel' range.1, Char.ofNat_toNat] at here

/-- A word that begins in front of a character it does not have ends there too. -/
theorem prefix_cut {word front rest : Str} (apart : c ∉ word) (begins : word <+: front ++ c :: rest) :
    word <+: front := by
  rcases List.prefix_or_prefix_of_prefix begins (List.prefix_append front (c :: rest)) with inside | ⟨more, rfl⟩
  · exact inside
  · rw [List.prefix_append_right_inj] at begins
    cases more with
    | nil => simp
    | cons d more =>
      obtain ⟨rfl, _⟩ := List.cons_prefix_cons.mp begins
      simp at apart

theorem verb_solid (chat : Chat) : str chat.verb ≠ [] ∧ ∀ c ∈ str chat.verb, isSpace c = false := by
  rw [Chat.verb]
  split <;> exact ⟨by decide, List.all_iff_forall_prop.mp (by decide)⟩

theorem verb_absent (chat : Chat) : ¬ str chat.verb <:+: chat.name := by
  rw [Chat.verb]
  split
  · rename_i team
    exact chat.plainTeam team
  · exact chat.plain

theorem dots {s : Str} (flat : '\n' ∉ s) : ∀ c ∈ s, dot c = true := by
  intro c member
  have other : c ≠ '\n' := fun same => flat (same ▸ member)
  simp [dot, other]

theorem head_solid {s rest : Str} (filled : s ≠ []) (solid : ∀ c ∈ s.head?, isSpace c = false) :
    ∀ c ∈ (s ++ rest).head?, isSpace c = false := by
  rwa [List.head?_append_of_ne_nil _ filled]

/-! ### One line -/

/-- The last quote ends what was said, and there may be others in it. -/
theorem match_message (chat : Chat) :
    firstMatch [.text ['"'], .group dot true, .text ['"']] (['"'] ++ (chat.message ++ ['"'])) =
      some [chat.message] := by
  rw [firstMatch_text]
  refine firstMatch_greedy (dots chat.flatMessage) chat.said ?_ rfl
  intro way member
  obtain rfl : way = (['"'], []) := by simpa [takes, dot] using member
  rfl

theorem match_verb (chat : Chat) :
    firstMatch
      [.many isSpace true, .text (str chat.verb), .many isSpace true, .text ['"'], .group dot true, .text ['"']]
      (' ' :: (str chat.verb ++ (' ' :: (['"'] ++ (chat.message ++ ['"']))))) = some [chat.message] := by
  obtain ⟨some_, solid⟩ := verb_solid chat
  have head : ∀ c ∈ (str chat.verb).head?, isSpace c = false := fun c member => solid c (List.mem_of_mem_head? member)
  rw [firstMatch_one rfl (head_solid some_ head), firstMatch_text, firstMatch_one rfl (by rintro c ⟨⟩; rfl)]
  exact match_message chat

/-- No other name ends sooner. -/
theorem match_sooner (chat : Chat) (split : chat.name = front ++ back) (some_ : back ≠ []) (items : List Item) :
    firstMatch (.many isSpace true :: .text (str chat.verb) :: items)
      (back ++ (' ' :: (str chat.verb ++ rest))) = none := by
  refine firstMatch_many_none (fun blank left parts _ blanks => firstMatch_text_refused (fun begins => ?_) _) true
  rcases List.append_eq_append_iff.mp parts with ⟨more, rfl, _⟩ | ⟨more, rfl, rfl⟩
  · -- white space up to the end of the name
    have member : back.getLast some_ ∈ chat.name.getLast? := by
      rw [split, List.getLast?_append_of_ne_nil _ some_, List.getLast?_eq_getLast_of_ne_nil some_]
      rfl
    have solid := chat.last _ member
    rw [blanks _ (List.mem_append_left _ (List.getLast_mem some_))] at solid
    contradiction
  · have apart : ' ' ∉ str chat.verb := fun member => absurd ((verb_solid chat).2 _ member) (by decide)
    have inside : more <:+: chat.name := by
      rw [split]
      exact List.infix_append_of_infix_right (List.suffix_append blank more).isInfix
    exact verb_absent chat ((prefix_cut apart begins).isInfix.trans inside)

/-- The pattern of its verb reads the line back. -/
theorem match_line (chat : Chat) :
    firstMatch (chatRe chat.verb) chat.line = some [chat.id, chat.name, chat.message] := by
  refine firstMatch_greedy chat.digits chat.numbered (fun way member => ?_) ?_
  · rw [takes_refused (by rintro c ⟨⟩; decide)] at member
    cases member
  · rw [firstMatch_text, firstMatch_one rfl (head_solid chat.named chat.first)]
    exact firstMatch_lazy (dots chat.flatName) chat.named
      (fun front back split some_ => match_sooner chat split some_ _) (match_verb chat)

/-! ### What is said to the team -/

/-- The lines that the pattern of a verb matches. -/
theorem captures_chat : groups ∈ captures (chatRe verb) line ↔ ∃ id gap name blank tight message rest,
    line = id ++ ':' :: (gap ++ (name ++ (blank ++ (str verb ++ (tight ++ '"' :: (message ++ '"' :: rest)))))) ∧
      Repeats isDecimal id ∧ Repeats isSpace gap ∧ Repeats dot name ∧ Repeats isSpace blank ∧ Repeats isSpace tight ∧
      Repeats dot message ∧ groups = [id, name, message] := by
  simp only [chatRe, mem_captures_group, mem_captures_text, mem_captures_many]
  constructor
  · rintro ⟨id, _, rfl, decimal, _, ⟨_, rfl, gap, _, rfl, wide, name, _, rfl, named, _, ⟨blank, _, rfl, apart, _, rfl,
      tight, _, rfl, near, _, rfl, message, _, rfl, said, _, ⟨rest, rfl, ends⟩, rfl⟩, rfl⟩, rfl⟩
    refine ⟨id, gap, name, blank, tight, message, rest, ?_, decimal, wide, named, apart, near, said, ?_⟩
    · simp [str]
    · simpa [captures] using ends
  · rintro ⟨id, gap, name, blank, tight, message, rest, rfl, decimal, wide, named, apart, near, said, rfl⟩
    exact ⟨id, _, rfl, decimal, _, ⟨_, rfl, gap, _, rfl, wide, name, _, rfl, named, _, ⟨blank, _, rfl, apart, _, rfl,
      tight, _, rfl, near, _, rfl, message, _, rfl, said, _, ⟨rest, rfl, by simp [captures]⟩, rfl⟩, rfl⟩, rfl⟩

/-- What stands in front of what is said to the team. -/
def Chat.front (chat : Chat) : Str := chat.id ++ (str ": " ++ (chat.name ++ (str " sayteam: " ++ ['"'])))

theorem line_team (chat : Chat) (team : chat.team = true) : chat.line = chat.front ++ (chat.message ++ ['"']) := by
  simp [Chat.line, Chat.front, Chat.verb, team, str]

theorem front_quiet (chat : Chat) : ¬ str "say:" <:+: chat.front := by
  have shape : chat.front = (chat.id ++ [':']) ++ ' ' :: (chat.name ++ ' ' :: str "sayteam: \"") := by
    simp [Chat.front, str]
  have blank : ' ' ∉ str "say:" := by decide
  rw [shape, infix_cut blank, infix_cut blank]
  rintro (number | name | verb)
  · have letter : 's' ∈ chat.id ++ [':'] := number.subset (by decide)
    have digit := chat.digits 's' (by simpa using letter)
    exact absurd digit (by decide)
  · exact chat.plain name
  · exact absurd verb (by decide)

/-- The word of what is said to all, behind a blank, can only stand in the message. -/
theorem word_within (chat : Chat) (team : chat.team = true) (space : isSpace blank = true)
    (shape : chat.line = before ++ blank :: (str "say:" ++ after)) :
    ∃ more, chat.message ++ ['"'] = more ++ blank :: (str "say:" ++ after) := by
  rw [line_team chat team, List.append_eq_append_iff] at shape
  rcases shape with ⟨more, _, split⟩ | ⟨back, split, tail⟩
  · exact ⟨more, split⟩
  cases back with
  | nil => exact ⟨[], tail.symm⟩
  | cons c back =>
    obtain ⟨rfl, word⟩ := List.cons.inj tail
    -- the front ends with a quote
    have ends : '"' ∈ blank :: back := by
      have last : chat.front.getLast? = some '"' := by
        simp only [Chat.front, ← List.append_assoc, List.getLast?_concat]
      rw [split, List.getLast?_append_of_ne_nil _ (by simp)] at last
      exact List.mem_of_getLast? last
    rcases List.prefix_or_prefix_of_prefix ⟨after, rfl⟩ ⟨chat.message ++ ['"'], word.symm⟩ with whole | part
    · refine absurd ?_ (front_quiet chat)
      rw [split]
      exact List.infix_append_of_infix_right (List.infix_cons whole.isInfix)
    · rcases List.mem_cons.mp ends with rfl | inside
      · exact absurd space (by decide)
      · exact absurd (part.subset inside) (by decide)

theorem imitates_of_captures (chat : Chat) (team : chat.team = true) (captured : groups ∈ captures playerRe chat.line) :
    chat.Imitates := by
  obtain ⟨id, gap, name, blanks, tight, message, rest, shape, _, _, _, apart, near, said, _⟩ :=
    captures_chat.mp captured
  have cut := List.dropLast_concat_getLast apart.1
  have parts : chat.line = (id ++ ':' :: (gap ++ (name ++ blanks.dropLast))) ++ blanks.getLast apart.1 ::
      (str "say:" ++ (tight ++ '"' :: (message ++ '"' :: rest))) := by
    rw [shape]
    nth_rewrite 1 [← cut]
    simp
  obtain ⟨front, split⟩ := word_within chat team (apart.2 _ (List.getLast_mem apart.1)) parts
  -- the quote that closes the line is the last character
  have filled : message ++ '"' :: rest ≠ [] := by simp
  have more : (message ++ '"' :: rest).dropLast ≠ [] := by
    rw [List.dropLast_append_of_ne_nil (by simp)]
    simp [said.1]
  rw [← List.dropLast_concat_getLast filled] at split
  have same : chat.message ++ ['"'] = (front ++ blanks.getLast apart.1 :: (str "say:" ++ (tight ++ '"' ::
      (message ++ '"' :: rest).dropLast))) ++ [(message ++ '"' :: rest).getLast filled] := by
    rw [split]
    simp
  exact ⟨team, front, _, tight, _, List.append_inj_left' same rfl, apart.2 _ (List.getLast_mem apart.1), near, more⟩

theorem captures_of_imitates (chat : Chat) (imitates : chat.Imitates) :
    ∃ groups, groups ∈ captures playerRe chat.line := by
  obtain ⟨team, front, blank, gap, back, split, space, near, more⟩ := imitates
  have front_flat : '\n' ∉ front := fun member => chat.flatMessage (by simp [split, member])
  have back_flat : '\n' ∉ back := fun member => chat.flatMessage (by simp [split, member])
  have name : Repeats dot (chat.name ++ (str " sayteam: \"" ++ front)) := by
    refine ⟨by simp [chat.named], dots ?_⟩
    simp [chat.flatName, front_flat, show '\n' ∉ str " sayteam: \"" by decide]
  have gap_one : Repeats isSpace [' '] := ⟨by simp, List.forall_mem_singleton.mpr rfl⟩
  have blank_one : Repeats isSpace [blank] := ⟨by simp, List.forall_mem_singleton.mpr space⟩
  refine ⟨[chat.id, _, back], captures_chat.mpr ⟨chat.id, [' '], _, [blank], gap, back, [], ?_,
    ⟨chat.numbered, chat.digits⟩, gap_one, name, blank_one, near, ⟨more, dots back_flat⟩, rfl⟩⟩
  rw [line_team chat team, split]
  simp [Chat.front, str]

theorem playerRe_team_iff (chat : Chat) (team : chat.team = true) :
    firstMatch playerRe chat.line = none ↔ ¬ chat.Imitates := by
  rw [firstMatch, List.head?_eq_none_iff, List.eq_nil_iff_forall_not_mem]
  constructor
  · intro none_ imitates
    obtain ⟨groups, captured⟩ := captures_of_imitates chat imitates
    exact none_ groups captured
  · intro plain groups captured
    exact plain (imitates_of_captures chat team captured)

/-- One blank before what is not white space. -/
theorem single_blank (wide : Repeats isSpace gap) (solid : ∀ c ∈ s.head?, isSpace c = false)
    (same : ' ' :: s = gap ++ t) : s = t := by
  obtain ⟨filled, white⟩ := wide
  match gap with
  | [] => contradiction
  | [c] => exact (List.cons.inj same).2
  | c :: d :: gap =>
    have next := solid d (by simp [(List.cons.inj same).2])
    rw [white d (by simp)] at next
    contradiction

/-- Taken for what is said to all, it is told of another name. -/
theorem playerRe_other (chat : Chat) (team : chat.team = true) (captured : [chat.id, name, message] ∈
    captures playerRe chat.line) : name ≠ chat.name := by
  rintro rfl
  obtain ⟨_, gap, _, blanks, tight, _, rest, shape, _, wide, _, apart, _, _, same⟩ := captures_chat.mp captured
  simp only [List.cons.injEq, and_true] at same
  obtain ⟨rfl, rfl, rfl⟩ := same
  rw [Chat.line, Chat.verb, if_pos team, List.append_cancel_left_eq] at shape
  have behind := single_blank wide (head_solid chat.named chat.first) (List.cons.inj shape).2
  rw [List.append_cancel_left_eq] at behind
  have verbs := single_blank apart (by rintro c ⟨⟩; rfl) behind
  simp [str] at verbs

theorem playerChatEvent_inj {lower : Str → Str} {id name message other player said : Str} {team all : Bool}
    (same : playerChatEvent lower id name message team = playerChatEvent lower other player said all) :
    id = other ∧ name = player := by
  have both (id name message : Str) (team : Bool) : (playerChatEvent lower id name message team).data.take 2 =
      [(str "player_id", id), (str "player_name", name)] := by
    unfold playerChatEvent
    split <;> rfl
  have front := both id name message team
  rw [same, both] at front
  simpa [eq_comm] using front

/-- A line gives one event, of whoever said it unless the message imitates. -/
theorem parseLine_chat (lower : Str → Str) (chat : Chat) : ∃ told, parseLine lower chat.line = .ok [told] ∧
    (told = chat.event lower ↔ ¬ chat.Imitates) := by
  have here := match_line chat
  rw [parseLine]
  cases team : chat.team with
  | false =>
    rw [Chat.verb, if_neg (by simp [team])] at here
    rw [playerRe, here]
    refine ⟨_, rfl, ?_⟩
    simp [Chat.event, Chat.Imitates, team]
  | true =>
    rw [Chat.verb, if_pos team] at here
    cases matched : firstMatch playerRe chat.line with
    | none =>
      rw [teamRe, here]
      refine ⟨_, rfl, ?_⟩
      simp [Chat.event, team, (playerRe_team_iff chat team).mp matched]
    | some groups =>
      have captured := List.mem_of_mem_head? matched
      obtain ⟨id, _, name, _, _, message, _, _, _, _, _, _, _, _, rfl⟩ := captures_chat.mp captured
      have imitates := imitates_of_captures chat team captured
      refine ⟨_, rfl, fun same => ?_, fun plain => absurd imitates plain⟩
      obtain ⟨rfl, named⟩ := playerChatEvent_inj same
      exact absurd named (playerRe_other chat team captured)

/-! ### The log -/

theorem line_flat (chat : Chat) : '\n' ∉ chat.line := by
  have digits : '\n' ∉ chat.id := fun member => absurd (chat.digits _ member) (by decide)
  have verb : '\n' ∉ str chat.verb := fun member => absurd ((verb_solid chat).2 _ member) (by decide)
  simp [Chat.line, digits, verb, chat.flatName, chat.flatMessage, show str ":" = [':'] from rfl]

theorem strip_line (chat : Chat) : strip chat.line = chat.line := by
  obtain ⟨c, id, shape⟩ := List.exists_cons_of_ne_nil chat.numbered
  have first : isSpace c = false := isDecimal_not_isSpace (chat.digits c (by simp [shape]))
  have ends (middle : Str) : strip (c :: middle ++ ['"']) = c :: middle ++ ['"'] := stripOf_ends first rfl middle
  have whole : chat.line = c :: (id ++ (str ":" ++ (' ' :: (chat.name ++ (' ' :: (str chat.verb ++
      (' ' :: (['"'] ++ chat.message)))))))) ++ ['"'] := by
    simp [Chat.line, shape]
  rw [whole, ends]

theorem poll_lines (told : Chat → LogEvent) (parsed : ∀ chat, parseLine lower chat.line = .ok [told chat])
    (chats : List Chat) : poll lower (chats.flatMap fun chat => chat.line ++ ['\n']) = ⟨chats.map told, none⟩ := by
  rw [poll_eq]
  induction chats with
  | nil => rfl
  | cons chat chats ih =>
    have filled : chat.line ≠ [] := by simp [Chat.line]
    rw [List.flatMap_cons, List.append_assoc, List.singleton_append, List.splitOn_append_cons_self,
      List.splitOn_eq_singleton (line_flat chat), List.singleton_append, pollLines]
    simp only [strip_line, if_neg filled, parsed, ih, List.map_cons, List.singleton_append]

/-- The chat of a log is read back as it was said and by whom, whatever was said, exactly
if no message to the team imitates what is said to all. -/
theorem poll_chats (lower : Str → Str) (chats : List Chat) :
    poll lower (chats.flatMap fun chat => chat.line ++ ['\n']) = ⟨chats.map (Chat.event lower), none⟩ ↔
      ∀ chat ∈ chats, ¬ chat.Imitates := by
  choose told parsed imitates using parseLine_chat lower
  rw [poll_lines told parsed, Polled.mk.injEq, and_iff_left rfl, List.map_inj_left]
  exact forall₂_congr fun chat _ => imitates chat

/-- To all, a message that imitates the line of another player stays a message of its own. -/
example : Chat.line ⟨str "5", str "Luke", str "2: Leia say: \"hi\"", false, List.all_eq_true.mp (by decide), by decide,
    by decide, by decide, by decide, by decide, by rintro _ ⟨⟩; decide,
    by rintro _ ⟨⟩; decide, by decide, by decide⟩ = str "5: Luke say: \"2: Leia say: \"hi\"\"" :=
  rfl

/-- To the team, it is told as said to all. -/
example : parseLine id (str "5: Luke sayteam: \"2: Leia say: \"hi\"\"") =
    .ok [playerChatEvent id (str "5") (str "Luke sayteam: \"2: Leia") (str "hi\"") false] := by decide

end JaplusProxy.Manager.LogWatcher
