import JaplusProxy.Machine
import JaplusProxy.PyString
import Mathlib.Data.List.Rotate

/-! The automessage plugin: a thread that says the configured messages in turn, and the
callbacks that start it and ask it to stop. Thread and callbacks interleave in any way. -/
namespace JaplusProxy.Plugins
open PyString Machine

namespace AutoMessage

/-- Where the thread is. -/
inductive Pc where
  /-- before on_start -/
  | unstarted
  /-- `time.sleep(5)` -/
  | waiting
  | head
  | sending (msg : Str)
  /-- `time.sleep(self._interval)` -/
  | resting
  /-- The loop is left, or an exception ended the thread. -/
  | ended
  deriving DecidableEq

structure State where
  messages : List Str
  interval : Int
  password : Str
  index : Nat := 0
  stop : Bool := false
  pc : Pc := .unstarted
  /-- The commands of the calls of `_send`, less the prefix of the packet, and whether the
  packet was sent. -/
  tried : List (Str × Bool) := []
  deriving DecidableEq

/-- What has gone out. -/
def State.sent (s : State) : List Str := (s.tried.filter Prod.snd).map Prod.fst

/-- `on_init`, with the defaults of the settings; False is `none`. -/
def onInit (messages : Option (List Str)) (interval : Option Int) (password : Option Str) : Option State :=
  let messages := messages.getD []
  let password := password.getD []
  if messages = [] ∨ password = [] then none
  else some { messages := messages, interval := interval.getD 300, password := password }

/-- `"%s svsay %s" % (self._password, message)` -/
def command (password message : Str) : Str := password ++ str " svsay " ++ message

inductive Action where
  | onStart
  /-- The first sleep ends. -/
  | wake
  /-- The condition of the loop, and the next message. -/
  | turn
  /-- `_send`, whose exceptions are swallowed: one may come before `s.send` is done. -/
  | send (done : Bool)
  | rest
  | onFinish

def step (s : State) : Action → Option State
  | .onStart => if s.pc = .unstarted then some { s with pc := .waiting } else none
  | .wake => if s.pc = .waiting then some { s with pc := .head } else none
  | .turn =>
    if s.pc = .head then
      if s.stop then some { s with pc := .ended }
      else
        match s.messages[s.index % s.messages.length]? with
        | none => some { s with pc := .ended }
        | some msg => some { s with pc := .sending msg, index := s.index + 1 }
    else none
  | .send done =>
    match s.pc with
    | .sending msg => some { s with tried := s.tried ++ [(command s.password msg, done)], pc := .resting }
    | _ => none
  | .rest =>
    -- a negative length raises
    if s.pc = .resting then some { s with pc := if s.interval < 0 then .ended else .head } else none
  | .onFinish => some { s with stop := true }

/-! ### Rotation -/

/-- The messages as they go out, from the `k`-th on. -/
def commands (s : State) : List Str := s.messages.map (command s.password)

/-- A call of `_send` is ahead. -/
def remaining (s : State) : Nat :=
  match s.pc with
  | .sending _ => 1
  | _ => 0

/-- What a thread with these messages has tried to send. -/
structure Turns (start s : State) : Prop where
  messages : s.messages = start.messages
  password : s.password = start.password
  tried : ∀ i < s.tried.length, (s.tried.map Prod.fst)[i]? = (commands start)[i % start.messages.length]?
  index : s.index = s.tried.length + remaining s
  next : ∀ msg, s.pc = .sending msg → start.messages[s.tried.length % start.messages.length]? = some msg

/-- Outside of `_send`. -/
theorem Turns.moves (turns : Turns start s) (idle : ∀ msg, s.pc ≠ .sending msg) (pc : Pc)
    (still : ∀ msg, pc ≠ .sending msg) : Turns start { s with pc := pc } where
  messages := turns.messages
  password := turns.password
  tried := turns.tried
  index := by
    have none_ (pc : Pc) (still : ∀ msg, pc ≠ .sending msg) (s : State) : remaining { s with pc := pc } = 0 := by
      cases pc <;> simp_all [remaining]
    have index := turns.index
    rw [show remaining s = 0 from none_ s.pc idle s] at index
    rw [none_ pc still s]
    exact index
  next := fun msg same => absurd same (still msg)

theorem step_turns (turns : Turns start s) (taken : step s a = some t) : Turns start t := by
  cases a with
  | onStart | wake =>
    simp only [step, Option.ite_none_right_eq_some, Option.some.injEq] at taken
    obtain ⟨here, rfl⟩ := taken
    exact turns.moves (by simp [here]) _ (by simp)
  | turn =>
    simp only [step, Option.ite_none_right_eq_some] at taken
    obtain ⟨here, taken⟩ := taken
    split at taken
    · cases taken
      exact turns.moves (by simp [here]) _ (by simp)
    · split at taken
      · cases taken
        exact turns.moves (by simp [here]) _ (by simp)
      · rename_i msg found
        cases taken
        have index : s.index = s.tried.length := by simpa [remaining, here] using turns.index
        rw [index, turns.messages] at found
        exact {
          messages := turns.messages
          password := turns.password
          tried := turns.tried
          index := congrArg (· + 1) index
          next := fun other same => by cases same; exact found }
  | send done =>
    simp only [step] at taken
    split at taken
    · rename_i msg here
      cases taken
      have index : s.index = s.tried.length + 1 := by simpa [remaining, here] using turns.index
      refine { messages := turns.messages, password := turns.password, tried := fun i inside => ?_
               index := by simp [index, remaining], next := by simp }
      rw [List.length_append, List.length_singleton] at inside
      rw [List.map_append, List.map_singleton]
      rcases Nat.lt_succ_iff_lt_or_eq.mp inside with early | rfl
      · rw [List.getElem?_append_left (by rwa [List.length_map]), turns.tried i early]
      · have last : s.tried.length = (s.tried.map Prod.fst).length := (List.length_map _).symm
        rw [commands, List.getElem?_map, turns.next msg here, Option.map_some, ← turns.password]
        nth_rewrite 1 [last]
        exact List.getElem?_concat_length ..
    · cases taken
  | rest =>
    simp only [step, Option.ite_none_right_eq_some, Option.some.injEq] at taken
    obtain ⟨here, rfl⟩ := taken
    exact turns.moves (by simp [here]) _ (by split <;> simp)
  | onFinish =>
    cases taken
    exact { turns with }

theorem start_turns (accepted : onInit messages interval password = some start) :
    Turns start start ∧ start.messages ≠ [] := by
  rw [onInit] at accepted
  split at accepted
  · cases accepted
  · rename_i fit
    cases accepted
    exact ⟨⟨rfl, rfl, fun i inside => absurd inside (Nat.not_lt_zero i), rfl, by simp⟩, fun empty => fit (.inl empty)⟩

/-! ### Stopping -/

/-- Once it is asked to stop, a thread ends the call that it has begun at most. -/
theorem step_stopping (asked : s.stop = true) (taken : step s a = some t) :
    t.stop = true ∧ ∃ more, t.tried = s.tried ++ more ∧ more.length + remaining t ≤ remaining s := by
  cases a with
  | onStart | wake =>
    simp only [step, Option.ite_none_right_eq_some, Option.some.injEq] at taken
    obtain ⟨here, rfl⟩ := taken
    exact ⟨asked, [], by simp, by simp [remaining]⟩
  | turn =>
    simp only [step, asked, Option.ite_none_right_eq_some, if_true, Option.some.injEq] at taken
    obtain ⟨here, rfl⟩ := taken
    exact ⟨rfl, [], by simp, by simp [remaining]⟩
  | send done =>
    simp only [step] at taken
    split at taken
    · rename_i msg here
      cases taken
      exact ⟨asked, _, rfl, by simp [remaining, here]⟩
    · cases taken
  | rest =>
    simp only [step, Option.ite_none_right_eq_some, Option.some.injEq] at taken
    obtain ⟨here, rfl⟩ := taken
    refine ⟨asked, [], by simp, ?_⟩
    by_cases negative : s.interval < 0 <;> simp [remaining, negative]
  | onFinish =>
    cases taken
    exact ⟨rfl, [], by simp, by simp [remaining]⟩

theorem run_stopping (reaches : Reachable step s t) (asked : s.stop = true) :
    ∃ more, t.tried = s.tried ++ more ∧ more.length + remaining t ≤ remaining s := by
  induction reaches with
  | refl => exact ⟨[], by simp⟩
  | next _ taken _ ih =>
    obtain ⟨still, first, tried, bound⟩ := step_stopping asked taken
    obtain ⟨second, later, more⟩ := ih still
    refine ⟨first ++ second, by rw [later, tried, List.append_assoc], ?_⟩
    rw [List.length_append]
    omega

/-- Any calls of `_send` in a row, as many as messages are configured, are for these
messages, each once, from where the rotation stands, whichever of them fail; and after
on_finish there is at most one more. -/
structure Rotates (start s : State) : Prop where
  turns : ∀ i, i + start.messages.length ≤ s.tried.length →
    ((s.tried.map Prod.fst).drop i).take start.messages.length = (commands start).rotate i
  index : s.index = s.tried.length + remaining s
  /-- What goes out, goes out in its turn. -/
  sent : s.sent.Sublist (s.tried.map Prod.fst) ∧ ((∀ call ∈ s.tried, call.2 = true) → s.sent = s.tried.map Prod.fst)
  stopping : ∀ t, s.stop = true → Reachable step s t →
    t.tried.length ≤ s.tried.length + 1 ∧ t.sent.length ≤ s.sent.length + 1

theorem automessage_rotates (accepted : onInit messages interval password = some start)
    (reaches : Reachable step start s) : Rotates start s := by
  obtain ⟨initial, some_⟩ := start_turns accepted
  have turns : Turns start s := reaches.invariant (fun _ _ _ turns _ taken => step_turns turns taken) initial
  have count : (commands start).length = start.messages.length := List.length_map _
  refine ⟨fun i inside => ?_, turns.index, ⟨List.Sublist.map _ List.filter_sublist, fun done => ?_⟩,
    fun t asked later => ?_⟩
  · refine List.ext_getElem? fun k => ?_
    by_cases low : k < start.messages.length
    · rw [List.getElem?_take_of_lt low, List.getElem?_drop, turns.tried (i + k) (by omega),
        List.getElem?_rotate (count.symm ▸ low), count, Nat.add_comm]
    · rw [List.getElem?_eq_none (by simp; omega), List.getElem?_eq_none (by simp [count]; omega)]
  · rw [State.sent, List.filter_eq_self.mpr done]
  · obtain ⟨more, tried, bound⟩ := run_stopping later asked
    have one : remaining s ≤ 1 := by
      rw [remaining]
      split <;> omega
    have few : (more.filter Prod.snd).length ≤ more.length := List.length_filter_le ..
    simp only [State.sent, tried, List.filter_append, List.map_append, List.length_append, List.length_map]
    omega

/-- Two messages, of which the second does not go out. -/
def twoMessages : State := { messages := [str "a", str "b"], interval := 300, password := str "pw" }

theorem automessage_rotates_two : ∃ s,
    Machine.run step twoMessages [.onStart, .wake, .turn, .send true, .rest, .turn, .send false] = some s ∧
      ((s.tried.map Prod.fst).drop 0).take 2 = (commands twoMessages).rotate 0 ∧ s.index = 2 ∧
      s.sent = [str "pw svsay a"] := by
  have accepted : onInit (some [str "a", str "b"]) none (some (str "pw")) = some twoMessages := by decide
  have ran : Machine.run step twoMessages [.onStart, .wake, .turn, .send true, .rest, .turn, .send false] =
      some { twoMessages with
        index := 2, pc := .resting, tried := [(str "pw svsay a", true), (str "pw svsay b", false)] } := by decide
  have rotates := automessage_rotates accepted (reachable_of_run ran)
  exact ⟨_, ran, rotates.turns 0 (by decide), rotates.index, by decide⟩

end AutoMessage

end JaplusProxy.Plugins
