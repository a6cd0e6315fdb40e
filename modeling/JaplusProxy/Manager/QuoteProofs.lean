import Mathlib.Data.Bool.AllAny
import JaplusProxy.ShCommand
import JaplusProxy.Manager.Sessions

/-! The command that start_engine gives to `sh -c`. Whatever stands in the configuration,
the shell runs the engine with the arguments of the plain start. -/
namespace JaplusProxy.Manager
open PyString ShCommand

/-! ### One argument -/

theorem safe_plain (inside : safe c = true) : plain c = true := by
  have outside : ∀ d ∈ special, safe d = false := List.all_iff_forall_prop.mp (by decide)
  refine decide_eq_true fun member => ?_
  rw [outside c member] at inside
  contradiction

/-- A quote is put between double quotes. -/
theorem lex_quotes (word : Option Str) (s : Str) :
    lex .single word (str "'\"'\"'" ++ s) = lex .single (push word '\'') s :=
  calc
    _ = lex .bare word ('"' :: '\'' :: '"' :: '\'' :: s) := lex_close word _
    _ = lex .double (some (word.getD [])) ('\'' :: '"' :: '\'' :: s) := lex_double word _
    _ = lex .double (push word '\'') ('"' :: '\'' :: s) := lex_within (by decide) _ _
    _ = lex .bare (push word '\'') ('\'' :: s) := lex_end _ _
    _ = lex .single (push word '\'') s := lex_quote (push word '\'') s

theorem replace_quote (c : Char) (s : Str) : replace (c :: s) (str "'") (str "'\"'\"'") =
    (if c = '\'' then str "'\"'\"'" else [c]) ++ replace s (str "'") (str "'\"'\"'") := by
  have front : str "'" <+: c :: s ↔ c = '\'' := by
    rw [show str "'" = ['\''] from rfl, List.cons_prefix_cons]
    simp [eq_comm]
  rw [replace, replaceFrom]
  simp only [front]
  split <;> rfl

theorem lex_replaced (s rest : Str) (word : Str) :
    lex .single (some word) (replace s (str "'") (str "'\"'\"'") ++ '\'' :: rest) =
      lex .bare (some (word ++ s)) rest := by
  induction s generalizing word with
  | nil => simp [replace, lex_close]
  | cons c s ih =>
    rw [replace_quote]
    split
    · rename_i quote
      subst quote
      rw [List.append_assoc, lex_quotes]
      exact (ih _).trans (by simp)
    · rename_i other
      rw [List.append_assoc, List.singleton_append, lex_single other]
      exact (ih _).trans (by simp)

/-- The shell reads back what was quoted. -/
theorem lex_quote_word (s : Str) (apart : rest.head? ≠ some '>') :
    lex .bare none (quote s ++ rest) = lex .bare (some s) rest := by
  rw [quote]
  split
  · rename_i empty
    subst empty
    exact (lex_quote none _).trans (lex_close _ _)
  · rename_i filled
    split
    · rename_i all
      exact lex_first (fun c member => safe_plain (List.all_eq_true.mp all c member)) filled apart
    · rw [List.append_assoc, List.cons_append, List.singleton_append, lex_quote]
      exact lex_replaced s rest []

/-! ### The command -/

theorem joined_cons (arg : Str) (filled : args ≠ []) : joined (arg :: args) = arg ++ ' ' :: joined args := by
  rw [joined, List.intercalate_cons_of_ne_nil filled, joined]
  simp

theorem lex_joined (args : List Str) (filled : args ≠ []) (tail : Str) :
    lex .bare none (joined (args.map quote) ++ ' ' :: tail) = (lex .bare none tail).map (args.map Token.word ++ ·) := by
  induction args with
  | nil => contradiction
  | cons arg args ih =>
    by_cases last : args = []
    · subst last
      rw [List.map_singleton, joined, List.intercalate_singleton, lex_quote_word arg (by simp), lex_space]
      rfl
    · rw [List.map_cons, joined_cons _ (by simpa using last), List.append_assoc, List.cons_append,
        lex_quote_word arg (by simp), lex_space, ih last, Option.map_map]
      rfl

/-- The engine gets its arguments as they are, and its output and its errors go to the log. -/
theorem shellCmd_read (l : Launch) (name : Str) : ∃ simple, ShCommand.read (shellCmd l name) = some simple ∧
    simple.words = str "exec" :: engineCmd l name ∧
    simple.redirections = [.append l.elog, .errorsTo (str "1")] ∧
    simple.streams = some ⟨.appended l.elog, .appended l.elog⟩ := by
  have exec : quote (str "exec") = str "exec" := by decide
  have shape : shellCmd l name = joined ((str "exec" :: engineCmd l name).map quote) ++
      ' ' :: ('>' :: '>' :: (quote l.elog ++ ' ' :: str "2>&1")) := by
    rw [List.map_cons, joined_cons _ (by simp [engineCmd]), exec, shellCmd]
    simp [str]
  have errors : lex .bare none (str "2>&1") = some [.errorsTo, .word (str "1")] := by decide
  have log : lex .bare none ('>' :: '>' :: (quote l.elog ++ ' ' :: str "2>&1")) =
      some [.append, .word l.elog, .errorsTo, .word (str "1")] := by
    rw [lex, lex_quote_word _ (by simp), lex_space, errors]
    rfl
  have read : ShCommand.read (shellCmd l name) = some
      { words := str "exec" :: engineCmd l name, redirections := [.append l.elog, .errorsTo (str "1")] } := by
    rw [ShCommand.read, shape, lex_joined _ (by simp), log, Option.map_some, Option.bind_some, parse_words]
    simp [parse]
  exact ⟨_, read, rfl, rfl, rfl⟩

end JaplusProxy.Manager
