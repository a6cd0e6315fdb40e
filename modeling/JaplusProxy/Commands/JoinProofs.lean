import JaplusProxy.Commands.FilterProofs

/-! Every moment of the join: where the write index stands, what room is left, and what is
written. `argc` is what the engine answers, whatever tokens it then hands out. -/
namespace JaplusProxy.Commands
open CString

/-- The blank in front of a token. -/
def joinBlank (i : Nat) (j : Join) : Option Join := if 1 < i ∧ j.len < 1023 then j.write [chr ' '] else some j

/-- The token behind it, as far as there is room. -/
def joinCopy (e : Engine) (i : Nat) (j : Join) : Option Join :=
  let tok := engineArgv e i 256
  j.write (tok.take (if j.room < tok.length then j.room else tok.length))

theorem joinToken_eq (e : Engine) (i : Nat) (j : Join) : joinToken e i j = (joinBlank i j).bind (joinCopy e i) := rfl

/-- The loop comes to its condition with index `i`. -/
inductive AtHead (e : Engine) (argc : Int) : Nat → Join → Prop
  | start : AtHead e argc 1 ⟨[], 0⟩
  | turn (head : AtHead e argc i j) (more : (i : Int) < argc ∧ j.len < 1023)
      (took : joinToken e i j = some next) : AtHead e argc (i + 1) next

/-- The index is inside `args[1024]`, with room for the NUL, and behind what is written. -/
structure InBuffer (j : Join) : Prop where
  len : 0 ≤ j.len ∧ j.len ≤ 1023
  written : j.len = j.args.length
  /-- `sizeof(args) - 1 - (size_t)len` does not wrap. -/
  room : (j.room : Int) = 1023 - j.len

/-- Both writes of a turn are inside, and so is the index between them. -/
def TurnInBuffer (e : Engine) (i : Nat) (j : Join) : Prop :=
  ∃ mid, joinBlank i j = some mid ∧ InBuffer mid ∧ ∃ next, joinCopy e i mid = some next ∧ InBuffer next

theorem ofArgs_inBuffer (fits : args.length ≤ 1023) : InBuffer (Join.ofArgs args) := by
  refine ⟨?_, rfl, ?_⟩
  · simp only [Join.ofArgs]
    omega
  · rw [Join.room_ofArgs args fits]
    simp only [Join.ofArgs]
    omega

theorem InBuffer.ofArgs (inside : InBuffer j) : j = Join.ofArgs j.args ∧ j.args.length ≤ 1023 := by
  obtain ⟨⟨_, high⟩, written, _⟩ := inside
  obtain ⟨args, len⟩ := j
  obtain rfl : len = args.length := written
  exact ⟨rfl, Int.ofNat_le.mp high⟩

theorem joinBlank_inBuffer (inside : InBuffer j) (i : Nat) : ∃ mid, joinBlank i j = some mid ∧ InBuffer mid := by
  obtain ⟨same, fits⟩ := inside.ofArgs
  rw [joinBlank]
  split
  · rename_i open'
    have short := inside.len.2
    have below : j.args.length < 1023 := by
      have written := inside.written
      omega
    rw [same, Join.write_ofArgs _ _ (by rw [List.length_singleton]; omega)]
    refine ⟨_, rfl, ofArgs_inBuffer ?_⟩
    rw [List.length_append, List.length_singleton]
    omega
  · exact ⟨j, rfl, inside⟩

theorem joinCopy_inBuffer (inside : InBuffer j) (e : Engine) (i : Nat) :
    ∃ next, joinCopy e i j = some next ∧ InBuffer next := by
  obtain ⟨same, fits⟩ := inside.ofArgs
  have room : j.room = 1023 - j.args.length := by
    rw [same]
    exact Join.room_ofArgs _ fits
  have taken (tok : Bytes) : (tok.take (if j.room < tok.length then j.room else tok.length)).length ≤
      1023 - j.args.length := by
    rw [List.length_take, room]
    split <;> omega
  have small := taken (engineArgv e i 256)
  rw [joinCopy]
  generalize (engineArgv e i 256).take _ = tok at small ⊢
  rw [same, Join.write_ofArgs _ _ (by omega)]
  refine ⟨_, rfl, ofArgs_inBuffer ?_⟩
  rw [List.length_append]
  omega

theorem turn_inBuffer (inside : InBuffer j) (e : Engine) (i : Nat) : TurnInBuffer e i j := by
  obtain ⟨mid, blank, midInside⟩ := joinBlank_inBuffer inside i
  exact ⟨mid, blank, midInside, joinCopy_inBuffer midInside e i⟩

theorem AtHead.inBuffer (head : AtHead e argc i j) : InBuffer j := by
  induction head with
  | start =>
    have empty : ([] : Bytes).length ≤ 1023 := Nat.zero_le _
    exact ofArgs_inBuffer empty
  | turn _ _ took ih =>
    obtain ⟨mid, blank, _, next, copied, inside⟩ := turn_inBuffer ih _ _
    rw [joinToken_eq, blank, Option.bind_some, copied] at took
    exact Option.some.inj took ▸ inside

/-- The loop ends at its condition. -/
theorem AtHead.exit (head : AtHead e argc i j) (left : turns = (argc - i).toNat)
    (ran : joinLoop e turns i j = some last) : ∃ n, AtHead e argc n last ∧ ¬ ((n : Int) < argc ∧ last.len < 1023) := by
  induction turns generalizing i j with
  | zero =>
    obtain rfl := Option.some.inj ran
    exact ⟨i, head, by omega⟩
  | succ turns ih =>
    rw [joinLoop] at ran
    split at ran
    · rename_i short
      obtain ⟨next, took, rest⟩ := Option.bind_eq_some_iff.mp ran
      exact ih (.turn head ⟨by omega, short⟩ took) (by omega) rest
    · rename_i full
      obtain rfl := Option.some.inj ran
      exact ⟨i, head, fun more => full more.2⟩

/-- The buffer is kept to in every turn, and what is left in it, once the NUL is written,
is the cut tokens joined by blanks, as far as they fit. -/
structure JoinsExactly (e : Engine) (argc : Int) : Prop where
  heads : ∀ i j, AtHead e argc i j → InBuffer j
  turns : ∀ i j, AtHead e argc i j → (i : Int) < argc → j.len < 1023 → TurnInBuffer e i j
  result : ∃ n j closed, joinLoop e (argc - 1).toNat 1 ⟨[], 0⟩ = some j ∧ AtHead e argc n j ∧
    ¬ ((n : Int) < argc ∧ j.len < 1023) ∧ j.write [0] = some closed ∧
    (CStr.ofBytes closed.args).bytes =
      (([chr ' '] : Bytes).intercalate ((List.range' 1 (argc - 1).toNat).map fun k => (e.token k).take 255)).take 1023
  /-- The answer for the command being executed. -/
  args : argc = e.argc → joinArgs e = some
    ((([chr ' '] : Bytes).intercalate ((List.range' 1 (argc - 1).toNat).map fun k => (e.token k).take 255)).take 1023)

theorem join_exact (e : Engine) (argc : Int) : JoinsExactly e argc where
  heads _ _ head := head.inBuffer
  turns _ _ head _ _ := turn_inBuffer head.inBuffer e _
  result := by
    have ran := joinLoop_tokens e (argc - 1).toNat
    obtain ⟨n, head, done⟩ := AtHead.exit .start rfl ran
    obtain ⟨closed, written, text⟩ := joinedTokens_closed e (argc - 1).toNat
    exact ⟨n, _, closed, ran, head, done, written, text⟩
  args own := by
    rw [joinArgs_tokens, ← own]
    rfl

end JaplusProxy.Commands
