import JaplusProxy.Hooks.Install
import JaplusProxy.Manager.Verify

/-! What verify_proxy answers against what this launch has logged. The log may be emptied
after the engine has written to it, may still hold lines of earlier launches, and is not
read again once a line is found or the deadline has passed. -/
namespace JaplusProxy.Manager.Verify
open PyString CString X86Jump Machine

/-! ### Scanning -/

theorem collect_hooked (found : Found) (lines : List Str) (line : Str) :
    line ∈ (lines.foldl Found.collect found).hooked ↔ line ∈ found.hooked ∨ line ∈ lines ∧ hookedMark <:+: line := by
  induction lines generalizing found with
  | nil => simp
  | cons first rest ih =>
    rw [List.foldl_cons, ih, Found.collect]
    split
    · rename_i new
      simp only [List.mem_append, List.mem_cons]
      constructor
      · rintro ((old | rfl | none) | ⟨later, marked⟩)
        · exact .inl old
        · exact .inr ⟨.inl rfl, new.1⟩
        · cases none
        · exact .inr ⟨.inr later, marked⟩
      · rintro (old | ⟨rfl | later, marked⟩)
        · exact .inl (.inl old)
        · exact .inl (.inr (.inl rfl))
        · exact .inr ⟨later, marked⟩
    · rename_i known
      rw [not_and, not_not] at known
      have same : ∀ skipped, line ∈ found.hooked ∨ line ∈ rest ∧ hookedMark <:+: line ↔
          line ∈ ({ found with skipped := skipped } : Found).hooked ∨ line ∈ first :: rest ∧ hookedMark <:+: line := by
        intro skipped
        constructor
        · exact Or.imp_right fun ⟨later, marked⟩ => ⟨.tail _ later, marked⟩
        · rintro (old | ⟨member, marked⟩)
          · exact .inl old
          · rcases List.mem_cons.mp member with rfl | later
            · exact .inl (known marked)
            · exact .inr ⟨later, marked⟩
      split <;> exact same _

theorem collect_skipped (found : Found) (lines : List Str) (line : Str)
    (member : line ∈ (lines.foldl Found.collect found).skipped) :
    line ∈ found.skipped ∨ line ∈ lines ∧ skippedMark <:+: line := by
  induction lines generalizing found with
  | nil => exact .inl member
  | cons first rest ih =>
    rw [List.foldl_cons] at member
    rcases ih _ member with earlier | ⟨later, marked⟩
    · rw [Found.collect] at earlier
      split at earlier
      · exact .inl earlier
      · split at earlier
        · rename_i new
          rcases List.mem_append.mp earlier with old | here
          · exact .inl old
          · rw [List.mem_singleton.mp here]
            exact .inr ⟨.head _, new.1⟩
        · exact .inl earlier
    · exact .inr ⟨.tail _ later, marked⟩

theorem mem_scan_hooked : line ∈ (scan lines).hooked ↔ line ∈ lines ∧ hookedMark <:+: line := by
  simpa [scan] using collect_hooked {} lines line

/-- Only lines with a mark are found. -/
theorem mem_scan (member : line ∈ (scan lines).hooked ++ (scan lines).skipped) :
    line ∈ lines ∧ (hookedMark <:+: line ∨ skippedMark <:+: line) := by
  rcases List.mem_append.mp member with hooked | skipped
  · exact (mem_scan_hooked.mp hooked).imp_right .inl
  · obtain none | ⟨inside, marked⟩ := collect_skipped {} lines line skipped
    · cases none
    · exact ⟨inside, .inr marked⟩

theorem result_iff (found : Found) : found.result = true ↔ found.hooked ≠ [] := by
  rw [Found.result]
  split
  · rename_i none
    simp [none.1]
  · split
    · rename_i none
      simp [none.2]
    · rename_i _ some
      rw [not_and] at some
      grind

theorem scan_result_iff (lines : List Str) : (scan lines).result = true ↔ ∃ line ∈ lines, hookedMark <:+: line := by
  rw [result_iff]
  constructor
  · intro some
    obtain ⟨line, member⟩ := List.exists_mem_of_ne_nil _ some
    exact ⟨line, mem_scan_hooked.mp member⟩
  · rintro ⟨line, member⟩
    exact List.ne_nil_of_mem (mem_scan_hooked.mpr member)

/-! ### What is verified -/

/-- This launch has logged a hook before the deadline. -/
def State.Logged (s : State) (deadline : Int) : Prop :=
  ∃ e ∈ s.history, e.launch = s.launch ∧ hookedMark <:+: e.line ∧ e.time < deadline

/-- verify_proxy reflects this launch: what it has logged is there, only that is counted,
and the result says whether a hook is in it. -/
structure Reflects (s : State) : Prop where
  kept : ∀ e ∈ s.history, e.launch = s.launch → e ∈ s.log
  own : ∀ deadline result found, s.pc = .returned deadline result found →
    ∀ line ∈ found.hooked ++ found.skipped, ∃ e ∈ s.history, e.launch = s.launch ∧ e.line = line
  verdict : ∀ deadline result found, s.pc = .returned deadline result found →
    (result = true ↔ s.Logged deadline)

/-- The proxy is enabled, and the lines come at the right time: those of this launch after
the log is emptied; what a read finds is of this launch, and its hooks are from before the
deadline; the hooks from before the deadline come before the last read, or, when that has
found one, also after it. -/
def Timely (proxy : Proxy) (s : State) : Action → Prop
  | .verify => proxy.enabled
  | .truncate => ∀ e ∈ s.log, e.launch ≠ s.launch
  | .read readable => readable → ∀ e ∈ s.log, (hookedMark <:+: e.line ∨ skippedMark <:+: e.line → e.launch = s.launch) ∧
      (hookedMark <:+: e.line → ∀ deadline, s.pc = .reading deadline → e.time < deadline)
  | .poll => ∀ deadline, s.pc = .waiting deadline → deadline ≤ s.now →
      ∀ e ∈ s.log, e.launch = s.launch → hookedMark <:+: e.line → e.time < deadline → e ∈ s.seen
  | .append launch line => launch = s.launch → hookedMark <:+: line →
      ∀ deadline result found, s.pc = .returned deadline result found → s.now < deadline →
        ∃ e ∈ s.seen, hookedMark <:+: e.line
  | _ => True

/-- verify_proxy is in its loop. -/
def Pc.looping : Pc → Bool
  | .waiting _ | .reading _ | .sleeping .. => true
  | _ => false

structure Consistent (s : State) : Prop extends Reflects s where
  logged : ∀ e ∈ s.log, e ∈ s.history
  bounded : ∀ e ∈ s.history, e.launch ≤ s.launch
  /-- The loop goes on while no read has found a hook. -/
  unfound : s.pc.looping → ∀ e ∈ s.seen, ¬ hookedMark <:+: e.line
  found : ∀ deadline result found, s.pc = .returned deadline result found →
    ∀ e ∈ s.seen, hookedMark <:+: e.line → e ∈ s.history ∧ e.launch = s.launch ∧ e.time < deadline

/-- A move before verify_proxy returns. -/
theorem Consistent.moves (consistent : Consistent s) (pc : Pc) (now : Int)
    (unreturned : ∀ deadline result found, pc ≠ .returned deadline result found)
    (inside : pc.looping → s.pc.looping) : Consistent { s with pc := pc, now := now } :=
  { kept := consistent.kept
    own := fun _ _ _ here => absurd here (unreturned _ _ _)
    verdict := fun _ _ _ here => absurd here (unreturned _ _ _)
    logged := consistent.logged
    bounded := consistent.bounded
    unfound := fun looping => consistent.unfound (inside looping)
    found := fun _ _ _ here => absurd here (unreturned _ _ _) }

theorem append_consistent (consistent : Consistent s) (timely : Timely proxy s (.append launch line))
    (taken : s.append launch line = some t) : Consistent t := by
  simp only [State.append] at taken
  split at taken
  · rename_i started
    cases taken
    constructor
    · constructor
      · intro e member same
        rcases List.mem_append.mp member with old | new
        · exact List.mem_append_left _ (consistent.kept e old same)
        · exact List.mem_append_right _ new
      · intro deadline result found here line member
        obtain ⟨e, old, same, text⟩ := consistent.own deadline result found here line member
        exact ⟨e, List.mem_append_left _ old, same, text⟩
      · intro deadline result found here
        rw [consistent.verdict deadline result found here]
        constructor
        · rintro ⟨e, old, logged⟩
          exact ⟨e, List.mem_append_left _ old, logged⟩
        · rintro ⟨e, member, same, marked, early⟩
          rcases List.mem_append.mp member with old | new
          · exact ⟨e, old, same, marked, early⟩
          · rw [List.mem_singleton] at new
            subst new
            -- a hook that comes this late is not the first one
            obtain ⟨first, read, hooked⟩ := timely same marked deadline result found here early
            obtain ⟨old, own, before⟩ := consistent.found deadline result found here first read hooked
            exact ⟨first, old, own, hooked, before⟩
    · intro e member
      rcases List.mem_append.mp member with old | new
      · exact List.mem_append_left _ (consistent.logged e old)
      · exact List.mem_append_right _ new
    · intro e member
      rcases List.mem_append.mp member with old | new
      · exact consistent.bounded e old
      · rw [List.mem_singleton.mp new]
        exact started
    · exact consistent.unfound
    · intro deadline result found here e read hooked
      exact (consistent.found deadline result found here e read hooked).imp_left (List.mem_append_left _)
  · cases taken

theorem launch_consistent (consistent : Consistent s) (taken : s.launchEngine raises = some t) : Consistent t := by
  have next : ∀ pc : Pc, (∀ deadline result found, pc ≠ .returned deadline result found) → pc.looping = false →
      Consistent { s with launch := s.launch + 1, pc := pc } := fun pc unreturned outside =>
    { kept := fun e member same => absurd (consistent.bounded e member) (by rw [same]; exact Nat.not_succ_le_self _)
      own := fun _ _ _ here => absurd here (unreturned _ _ _)
      verdict := fun _ _ _ here => absurd here (unreturned _ _ _)
      logged := consistent.logged
      bounded := fun e member => (consistent.bounded e member).trans (Nat.le_succ _)
      unfound := fun looping => by simp [outside] at looping
      found := fun _ _ _ here => absurd here (unreturned _ _ _) }
  simp only [State.launchEngine] at taken
  split at taken
  · split at taken
    · cases taken
    · cases taken
      exact next .launched (by simp) rfl
  · cases taken
    exact next _ (by cases raises <;> simp) (by cases raises <;> rfl)
  · cases taken
    exact next _ (by cases raises <;> simp) (by cases raises <;> rfl)
  · cases taken

theorem truncate_consistent (consistent : Consistent s) (timely : Timely proxy s .truncate)
    (taken : s.truncate = some t) : Consistent t := by
  simp only [State.truncate] at taken
  split at taken
  · cases taken
    exact {
      kept := fun e member same => absurd same (timely e (consistent.kept e member same))
      own := by simp
      verdict := by simp
      logged := by simp
      bounded := consistent.bounded
      unfound := nofun
      found := by simp }
  · cases taken

theorem poll_consistent (consistent : Consistent s) (timely : Timely proxy s .poll) (taken : s.poll = some t) :
    Consistent t := by
  simp only [State.poll] at taken
  split at taken
  · rename_i deadline here
    have looping : s.pc.looping := by rw [here]; rfl
    cases taken
    split
    · exact consistent.moves _ s.now (by simp) fun _ => looping
    · rename_i late
      have unfound := consistent.unfound looping
      refine { kept := consistent.kept, own := ?_, verdict := ?_, logged := consistent.logged
               bounded := consistent.bounded, unfound := nofun, found := ?_ }
      · intro _ _ _ same
        cases same
        simp
      · intro _ _ _ same
        cases same
        simp only [Found.result, and_self, if_true, Bool.false_eq_true, false_iff]
        rintro ⟨e, member, launch, marked, early⟩
        -- it was read, and the loop would have ended there
        have read := timely deadline here (Int.not_lt.mp late) e (consistent.kept e member launch) launch marked early
        exact unfound e read marked
      · intro _ _ _ _ e read hooked
        exact absurd hooked (unfound e read)
  · cases taken

/-- A read that finds nothing has seen no hook. -/
theorem scan_idle (idle : ¬ (scan lines).any = true) (member : line ∈ lines) : ¬ hookedMark <:+: line := by
  intro marked
  apply idle
  simp only [Found.any, decide_eq_true_eq]
  exact .inl (List.ne_nil_of_mem (mem_scan_hooked.mpr ⟨member, marked⟩))

theorem read_consistent (consistent : Consistent s) (timely : Timely proxy s (.read readable))
    (taken : s.read readable = some t) : Consistent t := by
  simp only [State.read] at taken
  split at taken
  · rename_i deadline here
    have looping : s.pc.looping := by rw [here]; rfl
    cases taken
    cases readable with
    | false => exact consistent.moves (.sleeping deadline (s.now + 1000)) s.now (by simp) fun _ => looping
    | true =>
      have timely := timely rfl
      rw [if_pos rfl, if_pos rfl]
      split
      · refine { kept := consistent.kept, own := ?_, verdict := ?_, logged := consistent.logged
                 bounded := consistent.bounded, unfound := nofun, found := ?_ }
        · intro _ _ _ same line member
          cases same
          obtain ⟨inside, marked⟩ := mem_scan member
          obtain ⟨e, log, rfl⟩ := List.mem_map.mp inside
          exact ⟨e, consistent.logged e log, (timely e log).1 marked, rfl⟩
        · intro _ _ _ same
          cases same
          rw [scan_result_iff]
          constructor
          · rintro ⟨line, inside, marked⟩
            obtain ⟨e, log, rfl⟩ := List.mem_map.mp inside
            exact ⟨e, consistent.logged e log, (timely e log).1 (.inl marked), marked, (timely e log).2 marked deadline here⟩
          · rintro ⟨e, member, launch, marked, early⟩
            exact ⟨e.line, List.mem_map_of_mem (consistent.kept e member launch), marked⟩
        · intro _ _ _ same e log hooked
          cases same
          exact ⟨consistent.logged e log, (timely e log).1 (.inl hooked), (timely e log).2 hooked deadline here⟩
      · rename_i idle
        exact {
          kept := consistent.kept
          own := by simp
          verdict := by simp
          logged := consistent.logged
          bounded := consistent.bounded
          unfound := fun _ e log => scan_idle idle (List.mem_map_of_mem log)
          found := by simp }
  · cases taken

theorem verify_consistent (consistent : Consistent s) (timely : Timely proxy s .verify)
    (taken : s.verify proxy = some t) : Consistent t := by
  have enabled : proxy.enabled = true := timely
  simp only [State.verify] at taken
  split at taken
  · rw [if_pos enabled] at taken
    cases taken
    exact {
      kept := consistent.kept
      own := by simp
      verdict := by simp
      logged := consistent.logged
      bounded := consistent.bounded
      unfound := by simp
      found := by simp }
  · cases taken

theorem wake_consistent (consistent : Consistent s) (taken : s.wake = some t) : Consistent t := by
  simp only [State.wake] at taken
  split at taken
  · rename_i here
    split at taken
    · cases taken
      exact consistent.moves _ s.now (by simp) fun _ => by rw [here]; rfl
    · cases taken
  · cases taken

theorem step_consistent (proxy : Proxy) (consistent : Consistent s) (timely : Timely proxy s a)
    (taken : step proxy s a = some t) : Consistent t := by
  cases a with
  | passes time =>
    cases taken
    obtain ⟨⟨kept, own, verdict⟩, logged, bounded, unfound, found⟩ := consistent
    exact ⟨⟨kept, own, verdict⟩, logged, bounded, unfound, found⟩
  | append launch line => exact append_consistent consistent timely taken
  | launch raises => exact launch_consistent consistent taken
  | truncate => exact truncate_consistent consistent timely taken
  | verify => exact verify_consistent consistent timely taken
  | poll => exact poll_consistent consistent timely taken
  | read readable => exact read_consistent consistent timely taken
  | wake => exact wake_consistent consistent taken

/-- Over any interleaving whose steps are timely, whatever earlier managers have left in
the log. -/
theorem verifyProxy_reflects (proxy : Proxy) (lines : List Str) (now : Int)
    (reaches : Reaches (step proxy) (Timely proxy) (start lines now) s) : Reflects s := by
  have initial : Consistent (start lines now) := {
    kept := fun _ member _ => member
    own := fun _ _ _ here => by cases here
    verdict := fun _ _ _ here => by cases here
    logged := fun _ member => member
    bounded := fun e member => by
      obtain ⟨line, _, rfl⟩ := List.mem_map.mp member
      exact Nat.le_refl 0
    unfound := nofun
    found := fun _ _ _ here => by cases here }
  exact (reaches.invariant (fun _ _ _ => step_consistent proxy) initial).toReflects

/-! ### The lines of InstallPatches -/

/-- A line of stderr as it is read back; what counts in it is ASCII. -/
def readBack (line : Hooks.Line) : Str := line.text.dropLast.map fun b => Char.ofNat b.toNat

theorem readBack_hooked (name : CStr) (addr tramp : Addr) : hookedMark <:+: readBack (.hooked name addr tramp) := by
  have front : readBack (.hooked name addr tramp) = str "[japlus_proxy] hooked " ++
      (name.bytes ++ lit "@" ++ Hooks.pointer addr ++ lit " tramp=" ++ Hooks.pointer tramp).map fun b => Char.ofNat b.toNat := by
    have ascii : (lit "[japlus_proxy] hooked ").map (fun b => Char.ofNat b.toNat) = str "[japlus_proxy] hooked " := by
      decide
    have newline : lit "\n" = [10] := by decide
    rw [readBack, Hooks.Line.text, newline, List.dropLast_concat]
    simp only [List.append_assoc, List.map_append, ascii]
  rw [front]
  apply List.infix_append_of_infix_left
  decide

theorem readBack_skipped (name : CStr) : skippedMark <:+: readBack (.target name false) := by
  have ascii : (lit " SKIPPED\n").dropLast.map (fun b => Char.ofNat b.toNat) = str " SKIPPED" := by decide
  have last : lit " SKIPPED\n" ≠ [] := by decide
  rw [readBack, Hooks.Line.text, if_neg (by decide), List.dropLast_append_of_ne_nil last, List.map_append, ascii]
  apply List.infix_append_of_infix_right
  decide

/-! ### The first start and a restart -/

def hookedLine : Str := readBack (.hooked Hooks.donedlName 0x0804EAA4 0xF7F00000)

def skippedLine : Str := readBack (.target Hooks.siegeName false)

/-- The hook is logged after the log is emptied. -/
theorem verifyProxy_reflects_hooked : ∃ s,
    run (step {}) (start [skippedLine] 0) [.launch false, .truncate, .append 1 hookedLine, .verify, .poll, .read true] =
      some s ∧ s.pc = .returned 25000 true { hooked := [hookedLine] } ∧ Reflects s := by
  refine ⟨_, rfl, by decide +kernel, verifyProxy_reflects {} [skippedLine] 0 ?_⟩
  exact .next (a := .launch false) (by trivial) rfl <|
    .next (a := .truncate) (by simp [Timely, start]) rfl <|
    .next (a := .append 1 hookedLine) (by rintro _ _ _ _ _ ⟨⟩) rfl <| .next (a := .verify) (by trivial) rfl <|
    .next (a := .poll) (by rintro _ ⟨⟩ late; exact absurd late (by decide)) rfl <|
    .next (a := .read true) (by
      rintro _ e member
      cases List.mem_singleton.mp member
      exact ⟨fun _ => rfl, fun _ _ here => by cases here; decide⟩) rfl .refl

/-- In a first start the engine logs its hook before the log is emptied. -/
theorem verifyProxy_discards : ¬ ∀ s, Reachable (step {}) (start [] 0) s → Reflects s := by
  intro reflects
  have ran : run (step {}) (start [] 0) [.launch false, .append 1 hookedLine, .truncate, .verify, .poll, .read true,
      .passes 25000, .wake, .poll] = some _ := rfl
  have verdict := (reflects _ (reachable_of_run ran)).verdict 25000 false {} rfl
  exact absurd (verdict.mpr ⟨_, .head _, rfl, readBack_hooked .., by decide⟩) (by decide)

end JaplusProxy.Manager.Verify
