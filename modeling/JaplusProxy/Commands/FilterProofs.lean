import JaplusProxy.Commands.Filter
import JaplusProxy.Commands.PolicyProofs

/-! The join never leaves `args[1024]`, and it holds the tokens as the loop reads
them: 255 bytes of each, joined by blanks and cut at the end of the buffer. -/
namespace JaplusProxy.Commands
open CString

/-- What the loop reads of a token. -/
def visible (t : Bytes) : Bytes := t.take 255

/-! ### The join -/

/-- A buffer filled up to the write index. -/
def Join.ofArgs (args : Bytes) : Join := ⟨args, args.length⟩

theorem Join.write_ofArgs (args tok : Bytes) (fits : args.length + tok.length ≤ 1024) :
    (Join.ofArgs args).write tok = some (Join.ofArgs (args ++ tok)) := by
  rw [Join.write, if_pos ⟨rfl, by simp only [Join.ofArgs]; omega⟩]
  simp [Join.ofArgs]

theorem Join.room_ofArgs (args : Bytes) (fits : args.length ≤ 1023) :
    (Join.ofArgs args).room = 1023 - args.length := by
  simp only [Join.room, Join.ofArgs]
  omega

def separator (i : Nat) : Bytes := if 1 < i then [chr ' '] else []

theorem joinToken_spec (fits : args.length < 1023) :
    joinToken e i (Join.ofArgs args) =
      some (Join.ofArgs ((args ++ separator i ++ visible (e.token i)).take 1023)) := by
  have blank : (if 1 < i ∧ (Join.ofArgs args).len < 1023 then (Join.ofArgs args).write [chr ' ']
      else some (Join.ofArgs args)) = some (Join.ofArgs (args ++ separator i)) := by
    by_cases later : 1 < i
    · rw [if_pos ⟨later, by simp only [Join.ofArgs]; omega⟩,
        Join.write_ofArgs _ _ (by simp only [List.length_singleton]; omega), separator, if_pos later]
    · rw [if_neg (fun both => later both.1), separator, if_neg later, List.append_nil]
  have grown : (args ++ separator i).length ≤ 1023 := by
    simp only [List.length_append, separator]
    split <;> simp <;> omega
  have copied (tok : Bytes) : tok.take (if 1023 - (args ++ separator i).length < tok.length then
      1023 - (args ++ separator i).length else tok.length) = tok.take (1023 - (args ++ separator i).length) := by
    split
    · rfl
    · rw [List.take_length, List.take_of_length_le (by omega)]
  rw [joinToken, blank, Option.bind_some]
  simp only [Join.room_ofArgs _ grown, copied]
  rw [Join.write_ofArgs _ _ (by simp only [List.length_take]; omega), List.take_append,
    List.take_of_length_le grown]
  rfl

theorem take_append_take (xs ys : Bytes) : (xs.take n ++ ys).take n = (xs ++ ys).take n := by
  simp only [List.take_append, List.take_take, Nat.min_self, List.length_take]
  by_cases short : xs.length ≤ n
  · rw [Nat.min_eq_right short]
  · rw [Nat.min_eq_left (by omega), Nat.sub_self, Nat.sub_eq_zero_of_le (by omega)]

/-- The turns over the tokens from index `i` on. -/
theorem joinLoop_spec (turns : Nat) (later : 1 < i) (fits : args.length ≤ 1023) :
    joinLoop e turns i (Join.ofArgs args) = some (Join.ofArgs
      ((args ++ (List.range' i turns).flatMap fun k => chr ' ' :: visible (e.token k)).take 1023)) := by
  induction turns generalizing i args with
  | zero =>
    rw [List.range'_zero, List.flatMap_nil, List.append_nil, List.take_of_length_le fits]
    rfl
  | succ turns ih =>
    rw [joinLoop]
    split
    · rename_i open'
      have start : args.length < 1023 := by
        simp only [Join.ofArgs] at open'
        omega
      rw [joinToken_spec start, Option.bind_some, ih (by omega) (List.length_take_le _ _),
        take_append_take, separator, if_pos later, List.range'_succ]
      simp only [List.append_assoc, List.flatMap_cons, List.cons_append, List.nil_append]
    · rename_i full
      have stop : args.length = 1023 := by
        simp only [Join.ofArgs] at full
        omega
      rw [List.take_append, stop, Nat.sub_self, List.take_zero, List.append_nil,
        List.take_of_length_le (by omega)]

/-- The tokens that `turns` turns read. -/
def joinedTokens (e : Engine) (turns : Nat) : Bytes :=
  joined ((List.range' 1 turns).map fun k => visible (e.token k))

theorem joinLoop_tokens (e : Engine) (turns : Nat) :
    joinLoop e turns 1 (Join.ofArgs []) = some (Join.ofArgs ((joinedTokens e turns).take 1023)) := by
  cases turns with
  | zero => rfl
  | succ turns =>
    rw [joinLoop, if_pos (by simp [Join.ofArgs]), joinToken_spec (by simp), Option.bind_some,
      joinLoop_spec _ (by omega) (List.length_take_le _ _), take_append_take, joinedTokens, List.range'_succ,
      List.map_cons, joined_cons]
    simp [separator, List.flatMap_map]

/-- A command's own tokens. -/
theorem joinedTokens_command (command : e.argv = name :: toks) :
    joinedTokens e (e.argc - 1).toNat = joined (toks.map fun t => visible t.bytes) := by
  have turns : (e.argc - 1).toNat = toks.length := by
    simp [Engine.argc, command]
  rw [joinedTokens, turns]
  congr 1
  apply List.ext_getElem
  · simp
  · intro k left right
    have inside : k < toks.length := by simpa using right
    simp [Engine.token, command, Nat.add_comm 1 k, inside]

theorem token_nulFree (e : Engine) (k : Nat) : 0 ∉ e.token k := by
  rw [Engine.token]
  cases e.argv[k]? with
  | none => simp
  | some t => exact t.nulFree

theorem joinedTokens_nulFree (e : Engine) (turns : Nat) : 0 ∉ joinedTokens e turns := by
  have clean : Clean (fun c => c == 0) ((List.range' 1 turns).map fun k => visible (e.token k)) := by
    intro t member c inside
    obtain ⟨k, _, rfl⟩ := List.mem_map.mp member
    simpa using fun (zero : c = 0) => token_nulFree e k (zero ▸ List.mem_of_mem_take inside)
  have none := (any_joined _ (by decide)).mpr clean
  exact fun zero => by simpa using List.any_eq_false.mp none 0 zero

/-- There is room for the NUL. -/
theorem joinedTokens_closed (e : Engine) (turns : Nat) :
    ∃ closed, (Join.ofArgs ((joinedTokens e turns).take 1023)).write [0] = some closed ∧
      (CStr.ofBytes closed.args).bytes = (joinedTokens e turns).take 1023 := by
  have nulFree : 0 ∉ (joinedTokens e turns).take 1023 :=
    fun zero => joinedTokens_nulFree e turns (List.mem_of_mem_take zero)
  refine ⟨_, Join.write_ofArgs _ _ ?_, CStr.bytes_ofBytes_append nulFree⟩
  simp only [List.length_take, List.length_singleton]
  omega

theorem joinArgs_tokens (e : Engine) : joinArgs e = some ((joinedTokens e (e.argc - 1).toNat).take 1023) := by
  obtain ⟨closed, written, text⟩ := joinedTokens_closed e (e.argc - 1).toNat
  rw [joinArgs]
  change (joinLoop e (e.argc - 1).toNat 1 (Join.ofArgs [])).bind _ = _
  rw [joinLoop_tokens, Option.bind_some]
  change (Join.write _ _).bind _ = _
  rw [written, Option.bind_some, text]

/-- The buffer always holds the cut tokens, joined and cut at its end. -/
theorem joinArgs_spec (command : e.argv = name :: toks) :
    joinArgs e = some ((joined (toks.map fun t => visible t.bytes)).take 1023) := by
  rw [joinArgs_tokens, joinedTokens_command command]

end JaplusProxy.Commands
