import JaplusProxy.Manager.PidFilesProofs
import JaplusProxy.Manager.Shutdown
import Mathlib.Data.List.TakeWhile

/-! What the manager still stops when it stops itself: what the listing has in front of its
own pid file. -/
namespace JaplusProxy.Manager
open PyString

/-! ### One file -/

theorem stopOne_none (alive : Int → Bool) (label : Str) :
    stopOne alive label none = (false, [.read label none, .notRunning label]) := by
  simp [stopOne, isPidAlive]

theorem stopOne_removed (running : isPidAlive alive pid = true) (label : Str) : (stopOne alive label pid).1 = true := by
  rw [stopOne]
  split
  · rfl
  · rfl

theorem stopOne_signal (alive : Int → Bool) (label : Str) (pid : Option Int) :
    (l, p) ∈ signals (stopOne alive label pid).2 ↔
      l = label ∧ pid = some p ∧ isPidAlive alive (some p) = true ∧ ¬ (label = str "engine" ∧ p = 1) := by
  cases pid with
  | none => simp [stopOne_none, signals]
  | some pid =>
    by_cases running : isPidAlive alive (some pid) = true
    · rw [stopOne_signals alive label pid running]
      split
      · rename_i first
        simp only [List.not_mem_nil, Option.some.injEq, false_iff]
        rintro ⟨_, rfl, _, other⟩
        exact other first
      · rename_i other
        simp only [List.mem_singleton, Prod.mk.injEq, Option.some.injEq]
        constructor
        · rintro ⟨rfl, rfl⟩
          exact ⟨rfl, rfl, running, other⟩
        · rintro ⟨rfl, rfl, _⟩
          exact ⟨rfl, rfl⟩
    · have none : signals (stopOne alive label (some pid)).2 = [] := by
        rw [stopOne]
        split
        · rename_i engine
          have first : pid = 1 := by simpa [running] using engine.2
          simp [first, signals]
        · rfl
      simp only [none, List.not_mem_nil, Option.some.injEq, false_iff]
      rintro ⟨_, rfl, alive, _⟩
      exact running alive

/-! ### Files in front of the manager's own -/

theorem stopFile_dir_other (alive : Int → Bool) (s : Stop) (other : label ≠ labelOf name file) :
    (stopFile alive name s file).dir (pidPath name label) = s.dir (pidPath name label) := by
  simp only [stopFile, removePid]
  split
  · exact Function.update_of_ne (fun path => other (pidPath_injective path)) ..
  · rfl

theorem stopFile_dir_self (alive : Int → Bool) (s : Stop) (file : Str) :
    (stopFile alive name s file).dir (pidPath name (labelOf name file)) =
      if (stopOne alive (labelOf name file) (readPid s.dir name (labelOf name file))).1 = true then none
      else s.dir (pidPath name (labelOf name file)) := by
  simp only [stopFile, removePid]
  split
  · exact Function.update_self ..
  · rfl

/-- No file comes into being. -/
theorem stopFile_readPid (read : readPid (stopFile alive name s file).dir name label = some pid) :
    readPid s.dir name label = some pid := by
  rw [readPid] at read ⊢
  by_cases here : label = labelOf name file
  · rw [here, stopFile_dir_self] at read
    split at read
    · cases read
    · exact here ▸ read
  · rwa [stopFile_dir_other alive s here] at read

theorem stopFiles_none (files : List Str) (gone : s.dir (pidPath name label) = none) :
    (files.foldl (stopFile alive name) s).dir (pidPath name label) = none := by
  induction files generalizing s with
  | nil => exact gone
  | cons file files ih =>
    rw [List.foldl_cons]
    apply ih
    by_cases here : label = labelOf name file
    · rw [here, stopFile_dir_self]
      split
      · rfl
      · exact here ▸ gone
    · rw [stopFile_dir_other alive s here, gone]

theorem stopFiles_kept {files : List Str} (alive : Int → Bool) (s : Stop) (apart : label ∉ files.map (labelOf name)) :
    (files.foldl (stopFile alive name) s).dir (pidPath name label) = s.dir (pidPath name label) := by
  induction files generalizing s with
  | nil => rfl
  | cons file files ih =>
    rw [List.map_cons, List.mem_cons, not_or] at apart
    rw [List.foldl_cons, ih _ apart.2, stopFile_dir_other alive s apart.1]

/-- A running process loses its file once its label is come to. -/
theorem stopFiles_removed {files : List Str} (s : Stop) (running : isPidAlive alive (readPid s.dir name label) = true)
    (found : label ∈ files.map (labelOf name)) :
    (files.foldl (stopFile alive name) s).dir (pidPath name label) = none := by
  induction files generalizing s with
  | nil => contradiction
  | cons file files ih =>
    rw [List.foldl_cons]
    by_cases here : label = labelOf name file
    · apply stopFiles_none
      subst here
      rw [stopFile_dir_self, if_pos (stopOne_removed running _)]
    · have read : readPid (stopFile alive name s file).dir name label = readPid s.dir name label := by
        rw [readPid, readPid, stopFile_dir_other alive s here]
      exact ih _ (read ▸ running) ((List.mem_cons.mp found).resolve_left here)

/-- The process that a label stands for gets a signal when the label is come to. -/
structure Hit (alive : Int → Bool) (dir : PidDir) (name label : Str) (pid : Int) : Prop where
  read : readPid dir name label = some pid
  running : isPidAlive alive (some pid) = true
  regular : ¬ (label = str "engine" ∧ pid = 1)

theorem stopFiles_signal (alive : Int → Bool) (name : Str) (s : Stop) (files : List Str) :
    (l, p) ∈ signals (files.foldl (stopFile alive name) s).events ↔
      (l, p) ∈ signals s.events ∨ l ∈ files.map (labelOf name) ∧ Hit alive s.dir name l p := by
  induction files generalizing s with
  | nil => simp
  | cons file files ih =>
    have here : (l, p) ∈ signals (stopFile alive name s file).events ↔
        (l, p) ∈ signals s.events ∨ l = labelOf name file ∧ Hit alive s.dir name l p := by
      simp only [stopFile, signals_append, List.mem_append, stopOne_signal]
      apply or_congr_right
      constructor
      · rintro ⟨rfl, read, running, regular⟩
        exact ⟨rfl, read, running, regular⟩
      · rintro ⟨rfl, read, running, regular⟩
        exact ⟨rfl, read, running, regular⟩
    rw [List.foldl_cons, ih, here, List.map_cons, List.mem_cons]
    constructor
    · rintro ((before | now) | ⟨found, read, running, regular⟩)
      · exact .inl before
      · exact .inr ⟨.inl now.1, now.2⟩
      · exact .inr ⟨.inr found, stopFile_readPid read, running, regular⟩
    · rintro (before | ⟨rfl | found, hit⟩)
      · exact .inl (.inl before)
      · exact .inl (.inr ⟨rfl, hit⟩)
      · by_cases same : l = labelOf name file
        · exact .inl (.inr ⟨same, hit⟩)
        · have read : readPid (stopFile alive name s file).dir name l = some p := by
            rw [readPid, stopFile_dir_other alive s same]
            exact hit.read
          exact .inr ⟨found, read, hit.running, hit.regular⟩

/-! ### The manager's own file -/

theorem upToEnd_others (others : ∀ e ∈ events, e.ends self = false) : upToEnd self events = (events, false) := by
  induction events with
  | nil => rfl
  | cons e events ih =>
    rw [upToEnd, others e (.head _), if_neg Bool.false_ne_true, ih fun e member => others e (.tail _ member)]

theorem stopOne_others (other : pid ≠ some self) (alive : Int → Bool) (label : Str) :
    ∀ e ∈ (stopOne alive label pid).2, e.ends self = false := by
  intro e member
  by_contra ends
  rw [Bool.not_eq_false] at ends
  cases e with
  | signal l p =>
    have sent : (l, p) ∈ signals (stopOne alive label pid).2 := List.mem_filterMap.mpr ⟨_, member, rfl⟩
    obtain ⟨_, read, _⟩ := (stopOne_signal alive label pid).mp sent
    obtain rfl : p = self := by simpa [Event.ends] using ends
    exact other read
  | _ => cases ends

/-- The run before the manager comes to itself. -/
def Shutdown.ofStop (s : Stop) : Shutdown := { s with }

theorem shutdownFile_running (self : Int) (s : Stop) (other : readPid s.dir name (labelOf name file) ≠ some self) :
    shutdownFile alive self name (.ofStop s) file = .ofStop (stopFile alive name s file) := by
  have whole := upToEnd_others (stopOne_others other alive (labelOf name file))
  simp only [shutdownFile, Shutdown.ofStop, Bool.false_eq_true, if_false, whole, not_false_eq_true, and_true, stopFile]

theorem shutdownFiles_running {files : List Str} (self : Int) (s : Stop)
    (other : ∀ file ∈ files, readPid s.dir name (labelOf name file) ≠ some self) :
    files.foldl (shutdownFile alive self name) (.ofStop s) = .ofStop (files.foldl (stopFile alive name) s) := by
  induction files generalizing s with
  | nil => rfl
  | cons file files ih =>
    rw [List.foldl_cons, List.foldl_cons, shutdownFile_running self s (other file (.head _))]
    exact ih _ fun file' member read => other file' (.tail _ member) (stopFile_readPid read)

theorem shutdownFiles_ended (files : List Str) (ended : s.ended = true) :
    files.foldl (shutdownFile alive self name) s = s := by
  induction files with
  | nil => rfl
  | cons file files ih => rw [List.foldl_cons, shutdownFile, if_pos ended, ih]

/-- At its own label the manager signals itself, and leaves its file. -/
theorem shutdownFile_self (s : Stop) (label : Str) (here : labelOf name file = label) (plain : label ≠ str "engine")
    (read : readPid s.dir name label = some self) (running : isPidAlive alive (some self) = true) :
    shutdownFile alive self name (.ofStop s) file =
      { s with events := s.events ++ [.read label (some self), .signal label self], ended := true } := by
  have positive : 0 < self := by
    simp only [isPidAlive, Bool.and_eq_true, decide_eq_true_eq] at running
    exact running.1
  have one : stopOne alive label (some self) =
      (true, [.read label (some self), .signal label self, .stopped label self]) := by
    rw [stopOne, if_neg fun engine => plain engine.1, if_pos running, killPid, if_pos positive]
    rfl
  have cut : upToEnd self [.read label (some self), .signal label self, .stopped label self] =
      ([.read label (some self), .signal label self], true) := by
    simp [upToEnd, Event.ends]
  simp [shutdownFile, Shutdown.ofStop, here, read, one, cut]

/-! ### The instance -/

/-- The manager `me` of an instance and all else that is recorded. The name has no
underscore, and no other instance's name begins with it. -/
structure ManagerRuns (alive : Int → Bool) (records : List Record) (files : List Str) (name : Part) (me : Int) : Prop where
  distinct : (records.map Record.key).Nodup
  listed : files.Nodup ∧ ∀ file, file ∈ files ↔ ((recorded records) file).isSome
  single : '_' ∉ name.text
  apart : ∀ r ∈ records, r.name ≠ name → ¬ name.text <+: r.name.text
  pids : ((mine records name).map Record.pid).Nodup
  manager : ∃ m ∈ mine records name, m.label.text = str "manager" ∧ m.pid = me
  running : isPidAlive alive (some me) = true

/-- Every other live process of the instance has its signal, and its file is gone. -/
def ShutdownComplete (alive : Int → Bool) (records : List Record) (name : Part) (me : Int) (s : Shutdown) : Prop :=
  ∀ r ∈ mine records name, isPidAlive alive (some r.pid) = true → r.pid ≠ me →
    (∃ label, (label, r.pid) ∈ signals s.events) ∧ s.dir r.file = none

/-- The files that the listing has in front of the manager's. -/
def filesBefore (files : List Str) (name : Str) : List Str :=
  (files.filter (globMatches name)).takeWhile fun file => labelOf name file ≠ str "manager"

theorem filesBefore_label (member : file ∈ filesBefore files name) : labelOf name file ≠ str "manager" := by
  simpa using List.mem_takeWhile_imp member

theorem recorded_some (held : recorded records file = some content) :
    ∃ r ∈ records, r.file = file ∧ content = some r.pid := by
  have general : ∀ (records : List Record) (dir : PidDir),
      (records.foldl (fun dir r => writePid dir r.name.text r.label.text r.pid) dir) file = some content →
        dir file = some content ∨ ∃ r ∈ records, r.file = file ∧ content = some r.pid := by
    intro records
    induction records with
    | nil => exact fun _ => .inl
    | cons r records ih =>
      intro dir held
      rw [List.foldl_cons] at held
      rcases ih _ held with written | ⟨r', member, found⟩
      · by_cases same : file = r.file
        · subst same
          rw [writePid, ← Record.file, Function.update_self] at written
          exact .inr ⟨r, .head _, rfl, (Option.some.inj written).symm⟩
        · rw [writePid, ← Record.file, Function.update_of_ne same] at written
          exact .inl written
      · exact .inr ⟨r', .tail _ member, found⟩
  exact (general records _ held).resolve_left (by simp)

theorem name_of_pidPath (single : '_' ∉ name) (apart : other ≠ name → ¬ name <+: other)
    (same : pidPath other label = pidPath name rest) : other = name := by
  simp only [pidPath, List.append_assoc, List.cons_append] at same
  by_contra differ
  rcases List.append_eq_append_iff.mp same with ⟨more, longer, tail⟩ | ⟨more, longer, _⟩
  · cases more with
    | nil => exact differ (by simpa using longer.symm)
    | cons c more =>
      obtain ⟨rfl, _⟩ := List.cons.inj tail
      exact single (longer ▸ by simp)
  · exact apart differ ⟨more, longer.symm⟩

namespace ManagerRuns
variable {alive : Int → Bool} {records : List Record} {files : List Str} {name : Part} {me : Int}
variable (runs : ManagerRuns alive records files name me)
include runs

/-- What is read under a label is the record of that label. -/
theorem read_some (read : readPid (recorded records) name.text label = some pid) :
    ∃ r ∈ mine records name, r.label.text = label ∧ r.pid = pid := by
  obtain ⟨r, member, file, same⟩ := recorded_some (Option.join_eq_some_iff.mp read)
  obtain rfl := Option.some.inj same
  have named : r.name = name := by
    by_contra other
    have same := name_of_pidPath runs.single (fun _ => runs.apart r member other) file
    exact runs.apart r member other (same ▸ List.prefix_rfl)
  rw [Record.file, named] at file
  exact ⟨r, mem_mine.mpr ⟨member, named⟩, pidPath_injective file, rfl⟩

theorem read_own (member : r ∈ mine records name) : readPid (recorded records) name.text r.label.text = some r.pid := by
  obtain ⟨inside, named⟩ := mem_mine.mp member
  obtain ⟨content, held⟩ := Option.isSome_iff_exists.mp ((recorded_isSome records r.file).mpr ⟨r, inside, rfl⟩)
  obtain ⟨r', _, _, rfl⟩ := recorded_some held
  have read : readPid (recorded records) name.text r.label.text = some r'.pid := by
    rw [readPid, ← file_of_name named, held, Option.join_some]
  obtain ⟨own, ownMember, label, pid⟩ := runs.read_some read
  rw [read, ← pid, record_unique runs.distinct ownMember member label]

/-- Only the manager's label holds the manager's pid. -/
theorem read_other (other : label ≠ str "manager") : readPid (recorded records) name.text label ≠ some me := by
  intro read
  obtain ⟨r, member, rfl, pid⟩ := runs.read_some read
  obtain ⟨m, manager, named, own⟩ := runs.manager
  have same := List.inj_on_of_nodup_map runs.pids member manager (pid.trans own.symm)
  exact other (same ▸ named)

theorem read_manager : readPid (recorded records) name.text (str "manager") = some me := by
  obtain ⟨m, member, named, rfl⟩ := runs.manager
  exact named ▸ runs.read_own member

/-- The run is the one over the files in front of the manager's own, and then its end. -/
theorem shutdown_eq : ∃ last, (∀ sent ∈ signals last, sent.2 = me) ∧
    (shutdown alive me files (recorded records) name.text).events =
      ((filesBefore files name.text).foldl (stopFile alive name.text) { dir := recorded records }).events ++ last ∧
    (shutdown alive me files (recorded records) name.text).dir =
      ((filesBefore files name.text).foldl (stopFile alive name.text) { dir := recorded records }).dir := by
  have cut : filesBefore files name.text ++ _ = files.filter (globMatches name.text) := List.takeWhile_append_dropWhile
  have before : (filesBefore files name.text).foldl (shutdownFile alive me name.text) { dir := recorded records } =
      .ofStop ((filesBefore files name.text).foldl (stopFile alive name.text) { dir := recorded records }) :=
    shutdownFiles_running me { dir := recorded records } fun _ member => runs.read_other (filesBefore_label member)
  rw [shutdown, ← cut, List.foldl_append, before]
  have apart : str "manager" ∉ (filesBefore files name.text).map (labelOf name.text) := fun member => by
    obtain ⟨file, inside, same⟩ := List.mem_map.mp member
    exact filesBefore_label inside same
  have kept := stopFiles_kept alive { dir := recorded records } apart
  generalize (filesBefore files name.text).foldl (stopFile alive name.text) { dir := recorded records } = s at kept ⊢
  cases rest : (files.filter (globMatches name.text)).dropWhile fun file => labelOf name.text file ≠ str "manager" with
  | nil => exact ⟨[], by simp [signals], by simp [Shutdown.ofStop], rfl⟩
  | cons file after =>
    have here : labelOf name.text file = str "manager" := by
      have head := List.head_dropWhile_not (fun file => decide (labelOf name.text file ≠ str "manager"))
        (l := files.filter (globMatches name.text)) (rest ▸ List.cons_ne_nil _ _)
      simp only [rest, List.head_cons] at head
      simpa using head
    have read : readPid s.dir name.text (str "manager") = some me := by
      rw [readPid, kept]
      exact runs.read_manager
    rw [List.foldl_cons, shutdownFile_self s (str "manager") here (by decide) read runs.running,
      shutdownFiles_ended after rfl]
    exact ⟨[.read (str "manager") (some me), .signal (str "manager") me], by simp [signals], rfl, rfl⟩

end ManagerRuns

/-- The manager stops the rest of its instance exactly when every other live process has a
file in front of the manager's that its label is decoded from, and no engine that runs is
recorded as pid 1. -/
theorem shutdown_complete_iff (runs : ManagerRuns alive records files name me) :
    ShutdownComplete alive records name me (shutdown alive me files (recorded records) name.text) ↔
      ∀ r ∈ mine records name, isPidAlive alive (some r.pid) = true → r.pid ≠ me →
        r.label.text ∈ (filesBefore files name.text).map (labelOf name.text) ∧
          ¬ (r.label.text = str "engine" ∧ r.pid = 1) := by
  obtain ⟨last, own, events, dir⟩ := runs.shutdown_eq
  refine forall₂_congr fun r member => forall₂_congr fun lives other => ?_
  have read := runs.read_own member
  have sent : (∃ label, (label, r.pid) ∈ signals (shutdown alive me files (recorded records) name.text).events) ↔
      r.label.text ∈ (filesBefore files name.text).map (labelOf name.text) ∧
        ¬ (r.label.text = str "engine" ∧ r.pid = 1) := by
    rw [events]
    simp only [signals_append, List.mem_append, stopFiles_signal]
    constructor
    · rintro ⟨label, (sent | ⟨found, hit⟩) | sent⟩
      · cases sent
      · obtain ⟨r', member', rfl, pid⟩ := runs.read_some hit.read
        obtain rfl := List.inj_on_of_nodup_map runs.pids member' member pid
        exact ⟨found, hit.regular⟩
      · exact absurd (own _ sent) other
    · rintro ⟨found, regular⟩
      exact ⟨r.label.text, .inl (.inr ⟨found, read, lives, regular⟩)⟩
  rw [sent, dir, file_of_name (mem_mine.mp member).2]
  refine ⟨fun both => both.1, fun stopped => ⟨stopped, ?_⟩⟩
  exact stopFiles_removed { dir := recorded records } (read ▸ lives) stopped.1

def engineRecord : Record := ⟨partA, partEngine, 100⟩
def managerRecord : Record := ⟨partA, partManager, 101⟩

theorem shutdown_complete_engine : ShutdownComplete (fun _ => true) [engineRecord, managerRecord] partA 101
    (shutdown (fun _ => true) 101 [engineRecord.file, managerRecord.file]
      (recorded [engineRecord, managerRecord]) partA.text) :=
  (shutdown_complete_iff ⟨by decide, listed_files (by decide), by decide, by decide, by decide,
    ⟨managerRecord, mem_mine.mpr ⟨.tail _ (.head _), rfl⟩, rfl, rfl⟩, by decide⟩).mpr (by decide)

/-- Listed first, the manager ends itself before it comes to the engine. -/
theorem shutdown_incomplete :
    ManagerRuns (fun _ => true) [managerRecord, engineRecord] [managerRecord.file, engineRecord.file] partA 101 ∧
    (shutdown (fun _ => true) 101 [managerRecord.file, engineRecord.file]
      (recorded [managerRecord, engineRecord]) partA.text).events =
        [.read (str "manager") (some 101), .signal (str "manager") 101] ∧
    ¬ ShutdownComplete (fun _ => true) [managerRecord, engineRecord] partA 101
      (shutdown (fun _ => true) 101 [managerRecord.file, engineRecord.file]
        (recorded [managerRecord, engineRecord]) partA.text) := by
  have events : (shutdown (fun _ => true) 101 [managerRecord.file, engineRecord.file]
      (recorded [managerRecord, engineRecord]) partA.text).events =
        [.read (str "manager") (some 101), .signal (str "manager") 101] := by decide
  have listed := listed_files (show ([managerRecord, engineRecord].map Record.file).Nodup by decide)
  refine ⟨⟨by decide, listed, by decide, by decide, by decide,
    ⟨managerRecord, mem_mine.mpr ⟨.head _, rfl⟩, rfl, rfl⟩, by decide⟩, events, fun complete => ?_⟩
  obtain ⟨⟨label, sent⟩, _⟩ := complete engineRecord (mem_mine.mpr ⟨.tail _ (.head _), rfl⟩) (by decide) (by decide)
  rw [events] at sent
  simp [signals, engineRecord] at sent

end JaplusProxy.Manager
