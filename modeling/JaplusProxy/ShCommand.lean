import JaplusProxy.PyString

/-! How a POSIX shell reads a simple command with its output redirected. Whatever would be
expanded, run as a second command or continued is not read at all, nor is a redirection
that begins inside a word. -/
namespace ShCommand
open PyString

/-- Characters with a meaning of their own, and white space. -/
def special : Str := str "|&;<>()$\\\"' *?[]#~!" ++ ['\x60', '\x7b', '\x7d', '\t', '\n', '\r']

/-- Characters that stand for themselves outside of quotes. -/
def plain (c : Char) : Bool := c ∉ special

inductive Token where
  | word (s : Str)
  /-- `>>` -/
  | append
  /-- `2>&` -/
  | errorsTo
  deriving DecidableEq

inductive Mode where
  | bare
  | single
  | double

/-- The word that ends here. -/
def flush : Option Str → List Token → List Token
  | none, tokens => tokens
  | some word, tokens => .word word :: tokens

def push (word : Option Str) (c : Char) : Option Str := some (word.getD [] ++ [c])

/-- The tokens, from inside a word or between two. -/
def lex : Mode → Option Str → Str → Option (List Token)
  | .bare, word, [] => some (flush word [])
  | .bare, none, '2' :: '>' :: '&' :: s => (lex .bare none s).map (.errorsTo :: ·)
  | .bare, none, '>' :: '>' :: s => (lex .bare none s).map (.append :: ·)
  | .bare, word, c :: s =>
    if c = ' ' then (lex .bare none s).map (flush word)
    else if c = '\'' then lex .single (some (word.getD [])) s
    else if c = '"' then lex .double (some (word.getD [])) s
    else if plain c then lex .bare (push word c) s
    else none
  | .single, _, [] => none
  | .single, word, c :: s => if c = '\'' then lex .bare word s else lex .single (push word c) s
  | .double, _, [] => none
  | .double, word, c :: s =>
    if c = '"' then lex .bare word s
    else if c ∈ ['$', '\\', '\x60'] then none
    else lex .double (push word c) s

inductive Redirection where
  | append (file : Str)
  /-- The errors go where that descriptor goes now. -/
  | errorsTo (descriptor : Str)
  deriving DecidableEq

structure Simple where
  words : List Str := []
  /-- In the order in which they are made. -/
  redirections : List Redirection := []
  deriving DecidableEq

def parse : List Token → Option Simple
  | [] => some {}
  | .word w :: rest => (parse rest).map fun simple => { simple with words := w :: simple.words }
  | .append :: .word file :: rest =>
    (parse rest).map fun simple => { simple with redirections := .append file :: simple.redirections }
  | .errorsTo :: .word descriptor :: rest =>
    (parse rest).map fun simple => { simple with redirections := .errorsTo descriptor :: simple.redirections }
  | _ => none

def read (s : Str) : Option Simple := (lex .bare none s).bind parse

/-! ### Streams -/

inductive Target where
  /-- Where the shell's own output went. -/
  | output
  /-- Where its errors went. -/
  | errors
  | appended (file : Str)
  deriving DecidableEq

structure Streams where
  output : Target
  errors : Target
  deriving DecidableEq

/-- Descriptors other than output and errors are not modelled. -/
def redirect (streams : Streams) : Redirection → Option Streams
  | .append file => some { streams with output := .appended file }
  | .errorsTo descriptor =>
    if descriptor = str "1" then some { streams with errors := streams.output }
    else if descriptor = str "2" then some streams
    else none

/-- The streams of the command, each redirection made on those of the ones before. -/
def Simple.streams (simple : Simple) : Option Streams := simple.redirections.foldlM redirect ⟨.output, .errors⟩

/-- The order decides where the errors go. -/
example : (read (str "engine >>log 2>&1")).bind Simple.streams =
    some ⟨.appended (str "log"), .appended (str "log")⟩ := by decide

example : (read (str "engine 2>&1 >>log")).bind Simple.streams = some ⟨.appended (str "log"), .output⟩ := by decide

/-! ### Words -/

theorem plain_apart (solid : plain c = true) : ∀ d ∈ special, c ≠ d := fun _ member same =>
  absurd (same ▸ member) (of_decide_eq_true solid)

/-- Where no redirection begins. -/
theorem lex_bare (word : Option Str) (c : Char) (s : Str) (inside : c ≠ '>')
    (number : word = none → c = '2' → ∀ t, s ≠ '>' :: '&' :: t) : lex .bare word (c :: s) =
      if c = ' ' then (lex .bare none s).map (flush word)
      else if c = '\'' then lex .single (some (word.getD [])) s
      else if c = '"' then lex .double (some (word.getD [])) s
      else if plain c then lex .bare (push word c) s
      else none :=
  lex.eq_4 word c s (fun t start digit same => number start digit t same) fun _ _ same _ => inside same

theorem lex_plain (solid : plain c = true) (word : Option Str) (s : Str)
    (number : word = none → ∀ t, s ≠ '>' :: '&' :: t) :
    lex .bare word (c :: s) = lex .bare (some (word.getD [] ++ [c])) s := by
  have apart := plain_apart solid
  rw [lex_bare word c s (apart '>' (by decide)) fun start _ => number start, if_neg (apart ' ' (by decide)),
    if_neg (apart '\'' (by decide)),
    if_neg (apart '"' (by decide)), if_pos solid]
  rfl

theorem lex_plains (solid : ∀ c ∈ s, plain c = true) (word rest : Str) :
    lex .bare (some word) (s ++ rest) = lex .bare (some (word ++ s)) rest := by
  induction s generalizing word with
  | nil => simp
  | cons c s ih =>
    rw [List.cons_append, lex_plain (solid c (.head _)) (some word) _ nofun,
      ih fun d member => solid d (.tail _ member)]
    simp

/-- A word without quotes begins. -/
theorem lex_first (solid : ∀ c ∈ s, plain c = true) (filled : s ≠ []) (apart : rest.head? ≠ some '>') :
    lex .bare none (s ++ rest) = lex .bare (some s) rest := by
  obtain ⟨c, s, rfl⟩ := List.exists_cons_of_ne_nil filled
  obtain ⟨first, later⟩ := List.forall_mem_cons.mp solid
  have next : ∀ t, s ++ rest ≠ '>' :: '&' :: t := by
    intro t same
    cases s with
    | nil => exact apart (congrArg List.head? same)
    | cons d s => exact plain_apart (later d (.head _)) '>' (by decide) (List.cons.inj same).1
  rw [List.cons_append, lex_plain first none _ fun _ => next]
  exact lex_plains later [c] rest

/-- A blank ends a word. -/
theorem lex_space (word s : Str) : lex .bare (some word) (' ' :: s) = (lex .bare none s).map (.word word :: ·) :=
  (lex_bare (some word) ' ' s (by decide) nofun).trans (if_pos rfl)

/-- A quote begins or goes on with a word. -/
theorem lex_quote (word : Option Str) (s : Str) :
    lex .bare word ('\'' :: s) = lex .single (some (word.getD [])) s := by
  rw [lex_bare word '\'' s (by decide) fun _ digit => absurd digit (by decide), if_neg (by decide), if_pos rfl]

theorem lex_double (word : Option Str) (s : Str) : lex .bare word ('"' :: s) = lex .double (some (word.getD [])) s := by
  rw [lex_bare word '"' s (by decide) fun _ digit => absurd digit (by decide), if_neg (by decide), if_neg (by decide),
    if_pos rfl]

theorem lex_single {c : Char} (inside : c ≠ '\'') (word : Option Str) (s : Str) :
    lex .single word (c :: s) = lex .single (push word c) s := by
  rw [lex, if_neg inside]

theorem lex_within {c : Char} (inside : c ∉ ['"', '$', '\\', '\x60']) (word : Option Str) (s : Str) :
    lex .double word (c :: s) = lex .double (push word c) s := by
  rw [List.mem_cons, not_or] at inside
  rw [lex, if_neg inside.1, if_neg inside.2]

theorem lex_end (word : Option Str) (s : Str) : lex .double word ('"' :: s) = lex .bare word s := by
  rw [lex, if_pos rfl]

theorem lex_close (word : Option Str) (s : Str) : lex .single word ('\'' :: s) = lex .bare word s := by
  rw [lex, if_pos rfl]

/-! ### Commands -/

theorem parse_words (words : List Str) (rest : List Token) : parse (words.map .word ++ rest) =
    (parse rest).map fun simple => { simple with words := words ++ simple.words } := by
  induction words with
  | nil => simp
  | cons word words ih =>
    rw [List.map_cons, List.cons_append, parse, ih, Option.map_map]
    rfl

end ShCommand
