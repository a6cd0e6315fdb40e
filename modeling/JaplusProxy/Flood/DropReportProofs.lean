import JaplusProxy.Flood.DropReports

/-! The lines about drops count every drop, and come one at a time as the deadline allows.
The deadline is a sum of clock readings, which is right while the clock does not wrap
between the sum and the drop. -/
namespace JaplusProxy.Flood
open CString CInt Machine

/-! ### One report -/

/-- The line that reports a count. -/
def reportLine (h : Hook) (n : Int) : Bytes :=
  match h with
  | .connless => lit ("[japlus_proxy] OOB rate limit: dropped " ++ toString n ++ " connectionless requests\n")
  | .donedl => lit ("[japlus_proxy] donedl dropped " ++ toString n ++ " (downloads disabled)\n")
  | .rcon => lit ("[japlus_proxy] rcon throttled " ++ toString n ++ " attempts\n")

def Fate.reported (f : Fate) : Bool := f.report.isSome

/-- `f` is the last report of some drops. -/
def LastReport (drops : List Fate) (f : Fate) : Prop := (drops.filter Fate.reported).getLast? = some f

/-- More than five seconds. -/
def Apart (f g : Fate) : Prop := f.time + 5000 < g.time

instance : IsTrans Fate Apart where
  trans f g h first second := by
    unfold Apart at *
    omega

/-- A drop after the deadline is itself reported. -/
def Prompt (drops : List Fate) : Prop :=
  ∀ before f after g, drops = before ++ f :: after → LastReport before g → Apart g f → f.time - g.time < 2147483648 →
    f.reported = true

/-- What the lines of a detour say of its drops. -/
structure Reported (h : Hook) (log : DropLog) (drops : List Fate) : Prop where
  lines : ∀ f ∈ drops, f.detoured.line = f.report.map (reportLine h)
  complete : (drops.filterMap Fate.report).sum + log.dropped = drops.length
  apart : (drops.filter Fate.reported).Pairwise Apart
  prompt : Prompt drops

/-- The reports of a detour go on where its counters stand. -/
structure Ledger (log : DropLog) (drops : List Fate) : Prop where
  range : int32 log.dropped = log.dropped
  stamp : ∀ g, LastReport drops g → log.lastMsg = int32 g.time

theorem DropLog.drop_due (log : DropLog) (now : Int) :
    (log.drop now).2.isSome = true ↔ int32 (log.lastMsg + 5000) < now := by
  rw [DropLog.drop]
  split <;> rename_i due <;> simp [due]

/-- Whether it reports or not, a drop adds one. -/
theorem DropLog.drop_total (log : DropLog) (now : Int) :
    (log.drop now).2.getD 0 + (log.drop now).1.dropped = int32 (log.dropped + 1) := by
  rw [DropLog.drop]
  split <;> simp

theorem DropLog.drop_stamp (log : DropLog) (now : Int) :
    (log.drop now).1.lastMsg = if (log.drop now).2.isSome then now else log.lastMsg := by
  rw [DropLog.drop]
  split <;> rfl

/-- The sum meets the deadline while the clock does not wrap between it and the drop. -/
theorem deadline_iff (on : m ≤ x) :
    ((int32 (int32 m + 5000) < int32 x → m + 5000 < x) ∧
      (m + 5000 < x → x - m < 2147483648 → int32 (int32 m + 5000) < int32 x)) ↔
    (x - m < 2147483648 → epoch x = epoch (m + 5000)) := by
  rw [int32_add_left]
  constructor
  · rintro ⟨apart, timely⟩ near
    by_contra wrapped
    rcases lt_or_gt_of_ne wrapped with earlier | later
    · have reads := int32_lt_of_epoch earlier (by omega)
      have after := apart reads
      unfold epoch at earlier
      omega
    · have reads := int32_lt_of_epoch later (by omega)
      have before : ¬ m + 5000 < x := fun after => absurd (timely after near) (by omega)
      unfold epoch at later
      omega
  · intro same
    by_cases near : x - m < 2147483648
    · have reads := int32_lt_iff (same near).symm
      exact ⟨reads.mp, fun after _ => reads.mpr after⟩
    · exact ⟨fun _ => by omega, fun _ far => absurd far near⟩

/-! ### One more drop -/

theorem split_append_singleton {l before after : List α} {a b : α} (split : l ++ [a] = before ++ b :: after) :
    (before = l ∧ b = a) ∨ ∃ rest, l = before ++ b :: rest := by
  rcases List.eq_nil_or_concat after with rfl | ⟨rest, last, rfl⟩
  · obtain ⟨rfl, same⟩ := List.append_inj' split rfl
    exact .inl ⟨rfl, (List.cons.inj same).1.symm⟩
  · rw [List.concat_eq_append, ← List.cons_append, ← List.append_assoc] at split
    exact .inr ⟨rest, (List.append_inj' split rfl).1⟩

theorem apart_append (apart : (drops.filter Fate.reported).Pairwise Apart) :
    ((drops ++ [f]).filter Fate.reported).Pairwise Apart ↔
      (f.reported = true → ∀ g, LastReport drops g → Apart g f) := by
  rw [List.filter_append]
  cases sent : f.reported with
  | false => simpa [sent] using apart
  | true =>
    rw [← List.isChain_iff_pairwise] at apart ⊢
    simp [List.isChain_append, sent, apart, LastReport]

theorem prompt_append (prompt : Prompt drops) :
    Prompt (drops ++ [f]) ↔
      ∀ g, LastReport drops g → Apart g f → f.time - g.time < 2147483648 → f.reported = true := by
  constructor
  · intro next g
    exact next drops f [] g rfl
  · intro new before e after g split
    rcases split_append_singleton split with ⟨rfl, rfl⟩ | ⟨rest, earlier⟩
    · exact new g
    · exact prompt before e rest g earlier

theorem complete_append {log : DropLog} (range : int32 log.dropped = log.dropped) (due : f.report = (log.drop now).2)
    (complete : (drops.filterMap Fate.report).sum + log.dropped = drops.length) :
    ((drops ++ [f]).filterMap Fate.report).sum + (log.drop now).1.dropped = (drops ++ [f]).length ↔
      log.dropped < 2147483647 := by
  have total := log.drop_total now
  rw [← due] at total
  have sum : ((drops ++ [f]).filterMap Fate.report).sum = (drops.filterMap Fate.report).sum + f.report.getD 0 := by
    cases sent : f.report <;> simp [sent]
  rw [sum, add_assoc, total, List.length_append, List.length_singleton]
  unfold int32 at range ⊢
  omega

/-- A drop on top of faithful reports is reported right exactly while the counter and the
clock do not wrap. -/
theorem reported_append_iff (ledger : Ledger log drops) (reported : Reported h log drops)
    (line : f.detoured.line = f.report.map (reportLine h)) (due : f.report = (log.drop (int32 f.time)).2)
    (on : ∀ g ∈ drops, g.time ≤ f.time) :
    Reported h (log.drop (int32 f.time)).1 (drops ++ [f]) ↔ log.dropped < 2147483647 ∧
      ∀ g, LastReport drops g → f.time - g.time < 2147483648 → epoch f.time = epoch (g.time + 5000) := by
  have complete := complete_append ledger.range due reported.complete
  have apart := apart_append (f := f) reported.apart
  have prompt := prompt_append (f := f) reported.prompt
  have deadline (g : Fate) (last : LastReport drops g) :
      ((f.reported = true → Apart g f) ∧ (Apart g f → f.time - g.time < 2147483648 → f.reported = true)) ↔
      (f.time - g.time < 2147483648 → epoch f.time = epoch (g.time + 5000)) := by
    have member : g ∈ drops := List.mem_of_mem_filter (List.mem_of_getLast? last)
    have sent : f.reported = true ↔ int32 (int32 g.time + 5000) < int32 f.time := by
      rw [Fate.reported, due, log.drop_due, ledger.stamp g last]
    rw [sent]
    exact deadline_iff (on g member)
  constructor
  · intro next
    refine ⟨complete.mp next.complete, fun g last => (deadline g last).mp ⟨fun sent => ?_, ?_⟩⟩
    · exact apart.mp next.apart sent g last
    · exact prompt.mp next.prompt g last
  · rintro ⟨small, wrapless⟩
    have meets (g : Fate) (last : LastReport drops g) := (deadline g last).mpr (wrapless g last)
    exact {
      lines := fun e member => by
        rcases List.mem_append.mp member with earlier | new
        · exact reported.lines e earlier
        · rw [List.mem_singleton.mp new, line]
      complete := complete.mpr small
      apart := apart.mpr fun sent g last => (meets g last).1 sent
      prompt := prompt.mpr fun g last => (meets g last).2 }

theorem ledger_append (ledger : Ledger log drops) (due : f.report = (log.drop (int32 f.time)).2) :
    Ledger (log.drop (int32 f.time)).1 (drops ++ [f]) := by
  constructor
  · rw [DropLog.drop]
    split
    · rfl
    · exact int32_idem _
  · intro g last
    rw [LastReport, List.filter_append] at last
    rw [log.drop_stamp, ← due]
    cases sent : f.report with
    | none =>
      have silent : f.reported = false := by simp [Fate.reported, sent]
      rw [List.filter_singleton, silent, Bool.cond_false, List.append_nil] at last
      exact ledger.stamp g last
    | some n =>
      have reported : f.reported = true := by simp [Fate.reported, sent]
      have same : f = g := by simpa [reported] using last
      simp [same]

/-! ### One packet -/

/-- The limits of the detours, before any report. -/
def Detours.limits (d : Detours) (a : Arrival) : Bool :=
  match a.hook with
  | .connless => (oobShouldDrop d.oob a.cvar a.ip (int32 a.early)).2
  | .donedl => a.cvar (lit "sv_allowdownload") = 0
  | .rcon => a.ip ≠ loopback ∧ (rateLimitFor d.rcon.table a.ip rconBurst rconPeriod (int32 a.time)).2 = true

namespace Detours

theorem meet_dropped (d : Detours) (a : Arrival) (limited : d.limits a = true) :
    (d.meet a).2 = ⟨false, ((d.log a.hook).drop (int32 a.time)).2.map (reportLine a.hook)⟩ ∧
      ∀ h, (d.meet a).1.log h = if h = a.hook then ((d.log h).drop (int32 a.time)).1 else d.log h := by
  obtain ⟨hook, ip, cvar, early, time⟩ := a
  cases hook with
  | connless =>
    simp only [limits] at limited
    simp only [meet, detourConnless, limited, if_true]
    exact ⟨rfl, by rintro ⟨⟩ <;> rfl⟩
  | donedl =>
    simp only [limits, decide_eq_true_eq] at limited
    simp only [meet, detourDoneDownload, limited, ne_eq, not_true_eq_false, if_false]
    exact ⟨rfl, by rintro ⟨⟩ <;> rfl⟩
  | rcon =>
    simp only [limits, decide_eq_true_eq] at limited
    simp only [meet, detourRcon, limited.1, limited.2, if_true, if_false]
    exact ⟨rfl, by rintro ⟨⟩ <;> rfl⟩

theorem meet_passed (d : Detours) (a : Arrival) (free : d.limits a = false) :
    (d.meet a).2 = ⟨true, none⟩ ∧ ∀ h, (d.meet a).1.log h = d.log h := by
  obtain ⟨hook, ip, cvar, early, time⟩ := a
  cases hook with
  | connless =>
    simp only [limits] at free
    have passed : d.meet ⟨.connless, ip, cvar, early, time⟩ =
        ({ d with oob := (oobShouldDrop d.oob cvar ip (int32 early)).1 }, ⟨true, none⟩) := by
      simp [meet, detourConnless, free]
    rw [passed]
    exact ⟨rfl, by rintro ⟨⟩ <;> rfl⟩
  | donedl =>
    simp only [limits, decide_eq_false_iff_not] at free
    have passed : d.meet ⟨.donedl, ip, cvar, early, time⟩ = (d, ⟨true, none⟩) := by
      simp [meet, detourDoneDownload, free]
    rw [passed]
    exact ⟨rfl, fun _ => rfl⟩
  | rcon =>
    by_cases loop : ip = loopback
    · have passed : d.meet ⟨.rcon, ip, cvar, early, time⟩ = (d, ⟨true, none⟩) := by
        simp [meet, detourRcon, loop]
      rw [passed]
      exact ⟨rfl, fun _ => rfl⟩
    · simp only [limits, loop, ne_eq, not_false_eq_true, true_and, decide_eq_false_iff_not, Bool.not_eq_true] at free
      have passed : d.meet ⟨.rcon, ip, cvar, early, time⟩ =
          ({ d with rcon.table := (rateLimitFor d.rcon.table ip rconBurst rconPeriod (int32 time)).1 },
            ⟨true, none⟩) := by
        simp [meet, detourRcon, loop, free]
      rw [passed]
      exact ⟨rfl, by rintro ⟨⟩ <;> rfl⟩

end Detours

/-! ### Runs -/

/-- Each detour's counters are those of its drops. -/
def Kept (w : Watch) : Prop := ∀ h, Ledger (w.detours.log h) (w.drops h)

/-- The reports of every detour are complete and timely. -/
def AllReported (w : Watch) : Prop := ∀ h, Reported h (w.detours.log h) (w.drops h)

/-- The counter of a drop does not overflow, nor does the clock wrap between the deadline
of its report and the drop. -/
def Reportable (w : Watch) (a : Arrival) : Prop :=
  w.detours.limits a = true →
    (w.detours.log a.hook).dropped < 2147483647 ∧
      ∀ g, LastReport (w.drops a.hook) g → a.time - g.time < 2147483648 → epoch a.time = epoch (g.time + 5000)

/-- A dropped packet goes on top of the drops of its detour, and nothing else changes. -/
theorem step_dropped (taken : Watch.step w a = some t) (limited : w.detours.limits a = true) :
    ∃ f : Fate, f.time = a.time ∧ f.report = ((w.detours.log a.hook).drop (int32 a.time)).2 ∧
      f.detoured.line = f.report.map (reportLine a.hook) ∧ (∀ h, ∀ g ∈ w.drops h, g.time ≤ a.time) ∧
      (∀ h, h ≠ a.hook → t.detours.log h = w.detours.log h ∧ t.drops h = w.drops h) ∧
      t.detours.log a.hook = ((w.detours.log a.hook).drop (int32 a.time)).1 ∧
      t.drops a.hook = w.drops a.hook ++ [f] := by
  obtain ⟨fate, logs⟩ := w.detours.meet_dropped a limited
  simp only [Watch.step, Option.ite_none_right_eq_some, Option.some.injEq] at taken
  obtain ⟨⟨read, past⟩, rfl⟩ := taken
  refine ⟨⟨a.hook, a.time, (w.detours.meet a).2, w.detours.due a⟩, rfl, ?_, ?_, ?_, ?_, ?_, ?_⟩
  · simp [Detours.due, fate]
  · simp [Detours.due, fate]
  · exact fun h g member => (past g (List.mem_of_mem_filter member)).trans read
  · intro h other
    refine ⟨?_, ?_⟩
    · simp [logs h, other]
    · simp [Watch.drops, other.symm]
  · simp [logs a.hook]
  · simp [Watch.drops, fate]

theorem step_passed (taken : Watch.step w a = some t) (free : w.detours.limits a = false) :
    ∀ h, t.detours.log h = w.detours.log h ∧ t.drops h = w.drops h := by
  obtain ⟨fate, logs⟩ := w.detours.meet_passed a free
  simp only [Watch.step, Option.ite_none_right_eq_some, Option.some.injEq] at taken
  obtain ⟨_, rfl⟩ := taken
  exact fun h => ⟨logs h, by simp [Watch.drops, fate]⟩

theorem step_kept (kept : Kept w) (taken : Watch.step w a = some t) : Kept t := by
  intro h
  cases limited : w.detours.limits a with
  | false =>
    obtain ⟨log, drops⟩ := step_passed taken limited h
    rw [log, drops]
    exact kept h
  | true =>
    obtain ⟨f, time, due, _, _, others, log, drops⟩ := step_dropped taken limited
    by_cases own : h = a.hook
    · subst own
      rw [log, drops, ← time]
      exact ledger_append (kept _) (time ▸ due)
    · rw [(others h own).1, (others h own).2]
      exact kept h

theorem step_reported_iff (kept : Kept w) (reported : AllReported w) (taken : Watch.step w a = some t) :
    AllReported t ↔ Reportable w a := by
  cases limited : w.detours.limits a with
  | false =>
    have passed := step_passed taken limited
    refine ⟨fun _ drop => by simp [limited] at drop, fun _ h => ?_⟩
    rw [(passed h).1, (passed h).2]
    exact reported h
  | true =>
    obtain ⟨f, time, due, line, on, others, log, drops⟩ := step_dropped taken limited
    have own := reported_append_iff (kept a.hook) (reported a.hook) line (time ▸ due) (time ▸ on a.hook)
    rw [time] at own
    constructor
    · intro all _
      have here := all a.hook
      rw [log, drops] at here
      exact own.mp here
    · intro met h
      by_cases mine : h = a.hook
      · subst mine
        rw [log, drops]
        exact own.mpr (met limited)
      · rw [(others h mine).1, (others h mine).2]
        exact reported h

theorem ledger_nil {log : DropLog} (none : log.dropped = 0) : Ledger log [] where
  range := by
    rw [none]
    rfl
  stamp := by simp [LastReport]

theorem reported_nil {log : DropLog} (none : log.dropped = 0) : Reported h log [] where
  lines := by simp
  complete := by simp [none]
  apart := .nil
  prompt := fun before f after g split => by simp at split

/-- Along every run the reports stay complete and timely exactly where no drop comes with
its counter full, or on the other side of a wrap of the clock than the deadline of its report. -/
theorem drops_reported_iff (ran : run Watch.step {} arrivals = some w) :
    Always Watch.step AllReported {} arrivals ↔ Each Watch.step Reportable {} arrivals := by
  have none (h : Hook) : (Detours.log {} h).dropped = 0 := by cases h <;> rfl
  have initial : Kept {} := fun h => ledger_nil (none h)
  exact always_iff_each (fun _ _ _ kept taken => step_kept kept taken)
    (fun _ _ _ kept reported taken => step_reported_iff kept reported taken) ran initial fun h => reported_nil (none h)

/-- A donedl packet while downloads are disabled. -/
def refused (time : Int) : Arrival := ⟨.donedl, 1, fun _ => 0, time, time⟩

theorem drops_reported_donedl : Always Watch.step AllReported {} [refused 6000, refused 6500] := by
  refine (drops_reported_iff (w := {
    detours := { dlLog := ⟨1, 6000⟩ }
    history := [
      ⟨.donedl, 6000, ⟨false, some (reportLine .donedl 1)⟩, some 1⟩,
      ⟨.donedl, 6500, ⟨false, none⟩, none⟩] }) rfl).mpr ?_
  refine .next (fun _ => ⟨by decide, fun g last => ?_⟩) rfl <| .next (fun _ => ⟨by decide, fun g last => ?_⟩) rfl trivial
  · cases last
  · cases last
    exact fun _ => by decide

/-- Just before the clock wraps, two drops a millisecond apart are both reported. -/
theorem drops_reported_twice : ¬ ∀ w, Reachable Watch.step {} w → AllReported w := by
  intro all
  have ran : run Watch.step {} [refused 2147483000, refused 2147483001] = some {
      detours := { dlLog := ⟨0, 2147483001⟩ }
      history := [
        ⟨.donedl, 2147483000, ⟨false, some (reportLine .donedl 1)⟩, some 1⟩,
        ⟨.donedl, 2147483001, ⟨false, some (reportLine .donedl 1)⟩, some 1⟩] } := rfl
  have apart := (all _ (reachable_of_run ran) .donedl).apart
  have first := (List.pairwise_cons.mp apart).1 _ (.head _)
  exact absurd first (by unfold Apart; decide)

end JaplusProxy.Flood
