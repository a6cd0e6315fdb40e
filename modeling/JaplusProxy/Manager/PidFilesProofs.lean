import JaplusProxy.Manager.PidFiles
import Mathlib.Algebra.Order.BigOperators.Group.List
import Mathlib.Algebra.Order.Group.Nat
import Mathlib.Data.List.Nodup
import Mathlib.Data.List.Perm.Subperm

/-! Whose processes stop_processes stops. A file name does not tell where the name of
the instance ends, so another instance's file may be taken for one of its own; and the
label is decoded by a replacement that may delete more than the name. -/
namespace JaplusProxy.Manager
open PyString

/-! ### Records -/

/-- A name or a label: not empty, and without a glob metacharacter. -/
structure Part where
  text : Str
  nonempty : text ≠ []
  plain : ∀ c ∈ text, c ≠ '*' ∧ c ≠ '?' ∧ c ≠ '[' ∧ c ≠ '/'
  deriving DecidableEq

/-- One write_pid. -/
structure Record where
  name : Part
  label : Part
  pid : Int

namespace Record

def key (r : Record) : Part × Part := (r.name, r.label)

def file (r : Record) : Str := pidPath r.name.text r.label.text

end Record

def recorded (records : List Record) : PidDir :=
  records.foldl (fun dir r => writePid dir r.name.text r.label.text r.pid) fun _ => none

/-- The labels of a name and their pids. -/
def own (records : List Record) (name : Part) : List (Str × Int) :=
  (records.filter (·.name = name)).map fun r => (r.label.text, r.pid)

/-- What read_pid returned, label by label. -/
def reads (events : List Event) : List (Str × Option Int) :=
  events.filterMap fun
    | .read label pid => some (label, pid)
    | _ => none

def signals (events : List Event) : List (Str × Int) :=
  events.filterMap fun
    | .signal label pid => some (label, pid)
    | _ => none

/-- Reads and signals are those of the name, each once. What gets a signal but is on no
record does not count. -/
structure Exact (system : System) (records : List Record) (name : Part) (events : List Event) : Prop where
  reads : (reads events).Perm ((own records name).map fun entry => (entry.1, some entry.2))
  /-- The signals of kill_pid, with their labels. -/
  signals : (signals events).Perm (own records name)
  total : ((system.signalled name.text events).filter (· ∈ records.map Record.pid)).Perm
    ((own records name).map Prod.snd)

/-- The files that the glob finds are the name's own and hold its pids, no label of the
name contains the name itself, no engine of it is recorded as pid 1, and _engine_kill
finds none of the recorded processes. -/
structure Separate (system : System) (records : List Record) (dir : PidDir) (name : Part) : Prop where
  files : ∀ file content, dir file = some content → globMatches name.text file →
    ∃ r ∈ records, r.name = name ∧ file = r.file ∧ content = some r.pid
  labels : ∀ r ∈ records, r.name = name → ¬ name.text ++ ['_'] <:+: r.label.text
  engine : ∀ r ∈ records, r.name = name → r.label.text = str "engine" → r.pid ≠ 1
  unswept : (∃ r ∈ records, r.name = name ∧ r.label.text = str "engine") →
    ∀ r ∈ records, r.pid ∉ system.engineKill name.text

/-! ### Names -/

theorem globMatches_iff : globMatches name file ↔ ∃ rest, file = pidPath name rest := by
  have length : (str ".pid").length = 4 := by decide
  simp only [globMatches, Bool.and_eq_true, List.isPrefixOf_iff_prefix, List.isSuffixOf_iff_suffix, decide_eq_true_eq]
  constructor
  · rintro ⟨⟨⟨tail, front⟩, ⟨head, back⟩⟩, room⟩
    have sizes := congrArg List.length (front.trans back.symm)
    have total := congrArg List.length back
    simp only [List.length_append, length, List.length_singleton] at sizes total
    have split := front.trans back.symm
    rw [List.append_eq_append_iff] at split
    rcases split with ⟨rest, inside, _⟩ | ⟨rest, outside, _⟩
    · refine ⟨rest, ?_⟩
      rw [← back, inside, pidPath]
      simp
    · have short := congrArg List.length outside
      simp only [List.length_append, List.length_singleton] at short
      have none : rest = [] := List.eq_nil_of_length_eq_zero (by omega)
      refine ⟨[], ?_⟩
      rw [← back, pidPath]
      rw [none, List.append_nil] at outside
      simp [outside]
  · rintro ⟨rest, rfl⟩
    refine ⟨⟨⟨rest ++ str ".pid", by simp [pidPath]⟩, ⟨_, rfl⟩⟩, ?_⟩
    simp only [pidPath, List.length_append, List.length_cons, length]
    omega

theorem labelOf_pidPath (name rest : Str) : labelOf name (pidPath name rest) = replace rest (name ++ ['_']) [] := by
  have length : (str ".pid").length = 4 := by decide
  have front : name ++ '_' :: rest = (name ++ ['_']) ++ rest := by simp
  rw [labelOf, stem, pidPath, List.length_append, length, Nat.add_sub_cancel, List.take_left, front]
  exact replace_append (by simp) rest []

/-! ### One file -/

@[simp] theorem reads_append (first second : List Event) : reads (first ++ second) = reads first ++ reads second :=
  List.filterMap_append

@[simp] theorem signals_append (first second : List Event) : signals (first ++ second) = signals first ++ signals second :=
  List.filterMap_append

theorem killPid_reads (label : Str) (pid : Option Int) : reads (killPid label pid) = [] := by
  cases pid with
  | none => rfl
  | some pid =>
    rw [killPid]
    split <;> rfl

theorem stopOne_reads (alive : Int → Bool) (label : Str) (pid : Option Int) :
    reads (stopOne alive label pid).2 = [(label, pid)] := by
  have kill := killPid_reads label pid
  rw [stopOne]
  split
  · split
    · simp only [reads, List.cons_append, List.nil_append]
      simpa [reads] using kill
    · simp [reads]
  · split
    · simpa [reads] using kill
    · simp [reads]

/-- A running process is signalled, except for one that is recorded as pid 1. -/
theorem stopOne_signals (alive : Int → Bool) (label : Str) (pid : Int) (running : isPidAlive alive (some pid)) :
    signals (stopOne alive label (some pid)).2 =
      if label = str "engine" ∧ pid = 1 then [] else [(label, pid)] := by
  have positive : 0 < pid := by
    simp only [isPidAlive, Bool.and_eq_true, decide_eq_true_eq] at running
    exact running.1
  have kill : killPid label (some pid) = [.signal label pid] := if_pos positive
  rw [stopOne]
  by_cases engine : label = str "engine"
  · by_cases first : pid = 1
    · simp [engine, first, signals]
    · simp [engine, first, running, killPid, positive, signals]
  · simp [engine, running, kill, signals]

/-- _engine_kill is for files with the label of the engine. -/
theorem stopOne_engineKill (alive : Int → Bool) (label : Str) (pid : Int) (running : isPidAlive alive (some pid)) :
    .engineKill ∈ (stopOne alive label (some pid)).2 ↔ label = str "engine" := by
  have other : .engineKill ∉ killPid label (some pid) := by
    rw [killPid]
    split <;> simp
  rw [stopOne]
  by_cases engine : label = str "engine"
  · rw [if_pos ⟨engine, .inr running⟩]
    simp [engine]
  · rw [if_neg fun both => engine both.1, if_pos running]
    simp [engine, other]

/-- The signals of a run: those of _engine_kill, and those of kill_pid. -/
theorem signalled_perm (system : System) (name : Str) (events : List Event) : (system.signalled name events).Perm
    ((events.filter (· = .engineKill)).flatMap (fun _ => system.engineKill name) ++ (signals events).map Prod.snd) := by
  induction events with
  | nil => exact .refl _
  | cons event events ih =>
    rw [System.signalled, List.flatMap_cons, ← System.signalled]
    cases event with
    | engineKill => simpa [System.sent, signals] using ih.append_left (system.engineKill name)
    | signal label pid => simpa [System.sent, signals] using (ih.cons pid).trans List.perm_middle.symm
    | read => simpa [System.sent, signals] using ih
    | stoppedEngine => simpa [System.sent, signals] using ih
    | stopped => simpa [System.sent, signals] using ih
    | notRunning => simpa [System.sent, signals] using ih

/-! ### All files -/

theorem stopFile_reads (alive : Int → Bool) (name : Str) (s : Stop) (file : Str) :
    reads (stopFile alive name s file).events =
      reads s.events ++ [(labelOf name file, readPid s.dir name (labelOf name file))] := by
  simp only [stopFile, reads_append, stopOne_reads]

/-- Each file is read under the label that its name decodes to. -/
theorem stopFiles_labels (alive : Int → Bool) (name : Str) (s : Stop) (files : List Str) :
    (reads (files.foldl (stopFile alive name) s).events).map Prod.fst =
      (reads s.events).map Prod.fst ++ files.map (labelOf name) := by
  induction files generalizing s with
  | nil => simp
  | cons file files ih =>
    rw [List.foldl_cons, ih, stopFile_reads]
    simp

theorem stopProcesses_labels (alive : Int → Bool) (files : List Str) (dir : PidDir) (name : Str) :
    (reads (stopProcesses alive files dir name).events).map Prod.fst =
      (files.filter (globMatches name)).map (labelOf name) :=
  stopFiles_labels alive name { dir := dir } _

/-- What happens to a file whose name decodes to itself. -/
def fileEvents (alive : Int → Bool) (dir : PidDir) (name file : Str) : List Event :=
  (stopOne alive (labelOf name file) (dir file).join).2

theorem stopFiles_events {files : List Str} (alive : Int → Bool) (s : Stop) (distinct : files.Nodup)
    (inverse : ∀ file ∈ files, pidPath name (labelOf name file) = file) :
    (files.foldl (stopFile alive name) s).events = s.events ++ files.flatMap (fileEvents alive s.dir name) := by
  induction files generalizing s with
  | nil => simp
  | cons file files ih =>
    obtain ⟨alone, rest⟩ := List.nodup_cons.mp distinct
    rw [List.forall_mem_cons] at inverse
    have next := ih (stopFile alive name s file) rest inverse.2
    have here : (stopFile alive name s file).events = s.events ++ fileEvents alive s.dir name file := by
      simp only [stopFile, fileEvents, readPid, inverse.1]
    have others : ∀ other ∈ files, (stopFile alive name s file).dir other = s.dir other := by
      intro other member
      have apart : other ≠ file := fun same => alone (same ▸ member)
      simp only [stopFile, removePid, inverse.1]
      split
      · exact Function.update_of_ne apart ..
      · rfl
    have same : files.flatMap (fileEvents alive (stopFile alive name s file).dir name) =
        files.flatMap (fileEvents alive s.dir name) := by
      apply List.flatMap_congr
      intro other member
      rw [fileEvents, fileEvents, others other member]
    rw [List.foldl_cons, next, here, same, List.flatMap_cons, List.append_assoc]

/-! ### The files of a name -/

section
variable {system : System} {records : List Record} {files : List Str} {name : Part}
variable (distinct : (records.map Record.key).Nodup)
variable (listed : files.Nodup ∧ ∀ file, file ∈ files ↔ ((recorded records) file).isSome)

theorem recorded_isSome (records : List Record) (file : Str) :
    ((recorded records) file).isSome ↔ ∃ r ∈ records, r.file = file := by
  have general (dir : PidDir) : ((records.foldl (fun dir r => writePid dir r.name.text r.label.text r.pid) dir) file).isSome ↔
      (dir file).isSome ∨ ∃ r ∈ records, r.file = file := by
    induction records generalizing dir with
    | nil => simp
    | cons r records ih =>
      rw [List.foldl_cons, ih, List.exists_mem_cons_iff, ← or_assoc]
      apply or_congr_left
      rw [writePid, ← Record.file]
      by_cases same : file = r.file
      · simp [same]
      · rw [Function.update_of_ne same]
        simp [Ne.symm same]
  rw [recorded]
  simpa using general fun _ => none

theorem listed_files (apart : (records.map Record.file).Nodup) : (records.map Record.file).Nodup ∧
    ∀ file, file ∈ records.map Record.file ↔ ((recorded records) file).isSome := by
  refine ⟨apart, fun file => ?_⟩
  rw [recorded_isSome, List.mem_map]

/-- The records of a name. -/
def mine (records : List Record) (name : Part) : List Record := records.filter (·.name = name)

theorem mem_mine : r ∈ mine records name ↔ r ∈ records ∧ r.name = name := by
  simp [mine]

theorem file_of_name {r : Record} (same : r.name = name) : r.file = pidPath name.text r.label.text := by
  rw [Record.file, same]

include distinct in
/-- A name has one record for each label. -/
theorem record_unique {r r' : Record} (left : r ∈ mine records name) (right : r' ∈ mine records name)
    (same : r.label.text = r'.label.text) : r = r' := by
  obtain ⟨left, named⟩ := mem_mine.mp left
  obtain ⟨right, named'⟩ := mem_mine.mp right
  apply List.inj_on_of_nodup_map distinct left right
  have label : r.label = r'.label := by
    cases labelled : r.label
    cases labelled' : r'.label
    simp_all
  rw [Record.key, Record.key, named, named', label]

include distinct in
theorem mine_nodup : (mine records name).Nodup := (List.Nodup.of_map _ distinct).filter _

include distinct in
theorem mine_files_nodup : ((mine records name).map Record.file).Nodup := by
  refine (mine_nodup distinct).map_on fun r left r' right same => ?_
  rw [file_of_name (mem_mine.mp left).2, file_of_name (mem_mine.mp right).2] at same
  exact record_unique distinct left right (pidPath_injective same)

include listed in
/-- The glob finds what is the name's own, at least. -/
theorem mine_files_subset : (mine records name).map Record.file ⊆ files.filter (globMatches name.text) := by
  intro file member
  obtain ⟨r, inside, rfl⟩ := List.mem_map.mp member
  obtain ⟨inside, named⟩ := mem_mine.mp inside
  refine List.mem_filter.mpr ⟨(listed.2 _).mpr ((recorded_isSome records _).mpr ⟨r, inside, rfl⟩), ?_⟩
  exact globMatches_iff.mpr ⟨_, file_of_name named⟩

theorem own_recorded : ((own records name).map Prod.snd).filter (· ∈ records.map Record.pid) =
    (own records name).map Prod.snd := by
  apply List.filter_eq_self.mpr
  intro pid member
  obtain ⟨entry, listed, rfl⟩ := List.mem_map.mp member
  obtain ⟨r, inside, rfl⟩ := List.mem_map.mp listed
  exact decide_eq_true (List.mem_map_of_mem (List.mem_of_mem_filter inside))

/-- Of the recorded processes the run signals those of the name, and those that
_engine_kill finds. -/
theorem signalled_recorded (sent : (signals events).Perm (own records name)) :
    ((system.signalled name.text events).filter (· ∈ records.map Record.pid)).Perm
      (((events.filter (· = .engineKill)).flatMap fun _ => system.engineKill name.text).filter
        (· ∈ records.map Record.pid) ++ (own records name).map Prod.snd) := by
  have split := (signalled_perm system name.text events).filter (· ∈ records.map Record.pid)
  rw [List.filter_append] at split
  have named := (sent.map Prod.snd).filter (· ∈ records.map Record.pid)
  rw [own_recorded] at named
  exact split.trans (named.append_left _)

/-- Files with these decoded names give these reads and signals. -/
theorem reads_files (alive : Int → Bool) (dir : PidDir) (files : List Str) :
    reads (files.flatMap (fileEvents alive dir name.text)) =
      files.map fun file => (labelOf name.text file, (dir file).join) := by
  induction files with
  | nil => rfl
  | cons file files ih =>
    rw [List.flatMap_cons, reads_append, ih, fileEvents, stopOne_reads]
    rfl

theorem signals_files (alive : Int → Bool) (dir : PidDir) (files : List Str) :
    signals (files.flatMap (fileEvents alive dir name.text)) =
      files.flatMap fun file => signals (fileEvents alive dir name.text file) := by
  induction files with
  | nil => rfl
  | cons file files ih => rw [List.flatMap_cons, signals_append, ih, List.flatMap_cons]

/-- A label without the name in it survives decoding. -/
theorem labelOf_file {r : Record} (member : r ∈ mine records name) (plain : ¬ name.text ++ ['_'] <:+: r.label.text) :
    labelOf name.text r.file = r.label.text := by
  rw [file_of_name (mem_mine.mp member).2, labelOf_pidPath, replace_absent plain]

include listed in
/-- The run over the name's own files. -/
theorem stopProcesses_events (alive : Int → Bool) (dir : PidDir)
    (found : (files.filter (globMatches name.text)).Perm ((mine records name).map Record.file))
    (plain : ∀ r ∈ records, r.name = name → ¬ name.text ++ ['_'] <:+: r.label.text) :
    (stopProcesses alive files dir name.text).events =
      (files.filter (globMatches name.text)).flatMap (fileEvents alive dir name.text) := by
  have inverse : ∀ file ∈ files.filter (globMatches name.text), pidPath name.text (labelOf name.text file) = file := by
    intro file member
    obtain ⟨r, inside, rfl⟩ := List.mem_map.mp (found.mem_iff.mp member)
    obtain ⟨recorded, named⟩ := mem_mine.mp inside
    rw [labelOf_file inside (plain r recorded named), ← file_of_name named]
  have events := stopFiles_events alive { dir := dir } (listed.1.filter _) inverse
  rwa [List.nil_append] at events

include distinct listed in
theorem Separate.found (separate : Separate system records (recorded records) name) :
    (files.filter (globMatches name.text)).Perm ((mine records name).map Record.file) := by
  apply (List.perm_ext_iff_of_nodup (listed.1.filter _) (mine_files_nodup distinct)).mpr
  refine fun file => ⟨?_, fun member => mine_files_subset listed member⟩
  intro member
  obtain ⟨inside, globbed⟩ := List.mem_filter.mp member
  obtain ⟨content, held⟩ := Option.isSome_iff_exists.mp ((listed.2 _).mp inside)
  obtain ⟨r, recorded, named, same, _⟩ := separate.files _ content held globbed
  exact List.mem_map.mpr ⟨r, mem_mine.mpr ⟨recorded, named⟩, same.symm⟩

include distinct listed in
/-- Files of its own are read and signalled under the labels they were written with. -/
theorem Separate.exact (separate : Separate system records (recorded records) name) (alive : Int → Bool)
    (running : ∀ r ∈ records, isPidAlive alive (some r.pid)) :
    Exact system records name (stopProcesses alive files (recorded records) name.text).events := by
  have content : ∀ r ∈ mine records name, recorded records r.file = some (some r.pid) := by
    intro r member
    obtain ⟨inside, named⟩ := mem_mine.mp member
    obtain ⟨content, held⟩ := Option.isSome_iff_exists.mp ((recorded_isSome records _).mpr ⟨r, inside, rfl⟩)
    have globbed : globMatches name.text r.file := globMatches_iff.mpr ⟨_, file_of_name named⟩
    obtain ⟨r', inside', named', same, rfl⟩ := separate.files r.file content held globbed
    rw [file_of_name named, file_of_name named'] at same
    rw [held, record_unique distinct member (mem_mine.mpr ⟨inside', named'⟩) (pidPath_injective same)]
  have decoded : ∀ r ∈ mine records name, labelOf name.text r.file = r.label.text := fun r member =>
    labelOf_file member (separate.labels r (mem_mine.mp member).1 (mem_mine.mp member).2)
  have found := separate.found distinct listed
  have events := stopProcesses_events listed alive (recorded records) found separate.labels
  have sent : (signals (stopProcesses alive files (recorded records) name.text).events).Perm (own records name) := by
    rw [events, signals_files]
    refine (found.flatMap_right _).trans (List.Perm.of_eq ?_)
    rw [List.flatMap_map, own, ← mine, List.map_eq_flatMap]
    apply List.flatMap_congr
    intro r member
    obtain ⟨inside, named⟩ := mem_mine.mp member
    have regular : ¬ (r.label.text = str "engine" ∧ r.pid = 1) :=
      fun first => separate.engine r inside named first.1 first.2
    rw [fileEvents, decoded r member, content r member, Option.join_some,
      stopOne_signals alive _ _ (running r inside), if_neg regular]
  refine ⟨?_, sent, ?_⟩
  · rw [events, reads_files]
    refine (found.map _).trans (List.Perm.of_eq ?_)
    rw [List.map_map, own, ← mine, List.map_map]
    apply List.map_congr_left
    intro r member
    simp only [Function.comp_apply, decoded r member, content r member, Option.join_some]
  · have spared : (((stopProcesses alive files (recorded records) name.text).events.filter (· = .engineKill)).flatMap
        fun _ => system.engineKill name.text).filter (· ∈ records.map Record.pid) = [] := by
      apply List.filter_eq_nil_iff.mpr
      intro pid swept
      obtain ⟨event, killed, swept⟩ := List.mem_flatMap.mp swept
      obtain ⟨killed, same⟩ := List.mem_filter.mp killed
      rw [of_decide_eq_true same, events] at killed
      obtain ⟨file, globbed, killed⟩ := List.mem_flatMap.mp killed
      obtain ⟨r, member, rfl⟩ := List.mem_map.mp (found.mem_iff.mp globbed)
      obtain ⟨inside, named⟩ := mem_mine.mp member
      rw [fileEvents, decoded r member, content r member, Option.join_some,
        stopOne_engineKill alive _ _ (running r inside)] at killed
      rw [decide_eq_true_eq, List.mem_map]
      rintro ⟨q, recorded, rfl⟩
      exact separate.unswept ⟨r, inside, named, killed⟩ q recorded swept
    have total : ((system.signalled name.text _).filter (· ∈ records.map Record.pid)).Perm _ := signalled_recorded sent
    rwa [spared, List.nil_append] at total

include distinct listed in
/-- cmd_status then shows the labels of the name. -/
theorem Separate.status (separate : Separate system records (recorded records) name) (alive : Int → Bool) (engineAlive : Bool) :
    ((cmdStatus alive engineAlive files (recorded records) name.text).map Prod.fst).Perm
      ((own records name).map Prod.fst) := by
  have sorted := List.mergeSort_perm (files.filter (globMatches name.text)) le
  rw [cmdStatus, own, ← mine, List.map_map, List.map_map]
  refine (sorted.trans (separate.found distinct listed)).map _ |>.trans (List.Perm.of_eq ?_)
  rw [List.map_map]
  apply List.map_congr_left
  intro r member
  exact labelOf_file member (separate.labels r (mem_mine.mp member).1 (mem_mine.mp member).2)

include distinct listed in
/-- As many reads as the name has labels leave no file of another name among them. -/
theorem Exact.found {alive : Int → Bool} {dir : PidDir}
    (exact : Exact system records name (stopProcesses alive files dir name.text).events) :
    (files.filter (globMatches name.text)).Perm ((mine records name).map Record.file) := by
  have labels := congrArg List.length (stopProcesses_labels alive files dir name.text)
  have count := exact.reads.length_eq
  rw [own, ← mine] at count
  simp only [List.length_map] at count labels
  have subset : (mine records name).map Record.file ⊆ files.filter (globMatches name.text) := mine_files_subset listed
  have contained := (mine_files_nodup distinct).subperm subset
  refine (contained.perm_of_length_le ?_).symm
  rw [List.length_map]
  omega

include distinct listed in
/-- The decoded labels are the recorded ones, so decoding deletes nothing from them. -/
theorem Exact.labels {alive : Int → Bool} {dir : PidDir}
    (exact : Exact system records name (stopProcesses alive files dir name.text).events) :
    ∀ r ∈ records, r.name = name → ¬ name.text ++ ['_'] <:+: r.label.text := by
  intro r inside named present
  have decoded : ((mine records name).map fun r => replace r.label.text (name.text ++ ['_']) []).Perm
      ((mine records name).map fun r => r.label.text) := by
    have labels := exact.reads.map Prod.fst
    rw [stopProcesses_labels, own, ← mine, List.map_map, List.map_map] at labels
    refine List.Perm.trans (List.Perm.of_eq ?_) (((exact.found distinct listed).map _).symm.trans labels)
    rw [List.map_map]
    apply List.map_congr_left
    intro r member
    rw [Function.comp_apply, file_of_name (mem_mine.mp member).2, labelOf_pidPath]
  have lengths := (decoded.map List.length).sum_eq
  rw [List.map_map, List.map_map] at lengths
  have shorter := List.sum_lt_sum (l := mine records name)
    (fun r => (replace r.label.text (name.text ++ ['_']) []).length) (fun r => r.label.text.length)
    (fun r _ => replace_nil_length ..) ⟨r, mem_mine.mpr ⟨inside, named⟩, replace_nil_shorter present (by simp)⟩
  exact absurd lengths shorter.ne

include distinct listed in
theorem Exact.held {alive : Int → Bool} {dir : PidDir}
    (exact : Exact system records name (stopProcesses alive files dir name.text).events) :
    ∀ r ∈ mine records name, (dir r.file).join = some r.pid := by
  intro r member
  have found := exact.found distinct listed
  have plain := exact.labels distinct listed
  have reads := exact.reads
  rw [stopProcesses_events listed alive dir found plain, reads_files, own, ← mine, List.map_map] at reads
  have here : r.file ∈ files.filter (globMatches name.text) := found.mem_iff.mpr (List.mem_map_of_mem member)
  have read := reads.mem_iff.mp (List.mem_map_of_mem here)
  obtain ⟨inside, named⟩ := mem_mine.mp member
  rw [labelOf_file member (plain r inside named)] at read
  obtain ⟨r', member', same⟩ := List.mem_map.mp read
  obtain ⟨label, pid⟩ := Prod.mk.inj same
  rw [← pid, record_unique distinct member' member label]

include distinct listed in
/-- An engine recorded as pid 1 gets no signal of its own. -/
theorem Exact.engine {alive : Int → Bool} {dir : PidDir}
    (exact : Exact system records name (stopProcesses alive files dir name.text).events)
    (running : ∀ r ∈ records, isPidAlive alive (some r.pid)) :
    ∀ r ∈ records, r.name = name → r.label.text = str "engine" → r.pid ≠ 1 := by
  intro r inside named engine first
  have member := mem_mine.mpr ⟨inside, named⟩
  have found := exact.found distinct listed
  have plain := exact.labels distinct listed
  have signals := exact.signals
  rw [stopProcesses_events listed alive dir found plain, signals_files] at signals
  have signalled := signals.mem_iff.mpr (List.mem_map_of_mem (List.mem_filter.mpr ⟨inside, decide_eq_true named⟩))
  obtain ⟨file, globbed, sent⟩ := List.mem_flatMap.mp signalled
  obtain ⟨r', member', rfl⟩ := List.mem_map.mp (found.mem_iff.mp globbed)
  obtain ⟨inside', named'⟩ := mem_mine.mp member'
  rw [fileEvents, labelOf_file member' (plain r' inside' named'), exact.held distinct listed r' member',
    stopOne_signals alive _ _ (running r' inside')] at sent
  split at sent
  · cases sent
  · rename_i regular
    obtain ⟨label, pid⟩ := Prod.mk.inj (List.mem_singleton.mp sent)
    exact regular ⟨label ▸ engine, pid ▸ first⟩

include distinct listed in
/-- Where the engine is stopped, a recorded process that _engine_kill found would get one
signal too many. -/
theorem Exact.unswept {alive : Int → Bool} {dir : PidDir}
    (exact : Exact system records name (stopProcesses alive files dir name.text).events)
    (running : ∀ r ∈ records, isPidAlive alive (some r.pid))
    (engine : ∃ r ∈ records, r.name = name ∧ r.label.text = str "engine") :
    ∀ r ∈ records, r.pid ∉ system.engineKill name.text := by
  obtain ⟨r, inside, named, engine⟩ := engine
  have member := mem_mine.mpr ⟨inside, named⟩
  have found := exact.found distinct listed
  have plain := exact.labels distinct listed
  have events := stopProcesses_events listed alive dir found plain
  have killed : Event.engineKill ∈ (stopProcesses alive files dir name.text).events := by
    rw [events]
    refine List.mem_flatMap.mpr ⟨r.file, found.mem_iff.mpr (List.mem_map_of_mem member), ?_⟩
    rw [fileEvents, labelOf_file member (plain r inside named), exact.held distinct listed r member]
    exact (stopOne_engineKill alive _ _ (running r inside)).mpr engine
  have lengths := exact.total.length_eq.symm.trans (signalled_recorded exact.signals).length_eq
  rw [List.length_append] at lengths
  have spared := List.eq_nil_of_length_eq_zero (Nat.left_eq_add.mp (lengths.trans (Nat.add_comm ..)))
  intro q recorded swept
  refine List.filter_eq_nil_iff.mp spared q.pid ?_ (decide_eq_true (List.mem_map_of_mem recorded))
  exact List.mem_flatMap.mpr ⟨_, List.mem_filter.mpr ⟨killed, decide_eq_true rfl⟩, swept⟩

end

/-- stop_processes stops exactly the processes of a name when the files that its glob
finds are the name's own, every label decodes to itself, and _engine_kill adds nothing. -/
theorem stopProcesses_exact_iff (system : System) (alive : Int → Bool) (records : List Record) (files : List Str)
    (name : Part) (distinct : (records.map Record.key).Nodup)
    (listed : files.Nodup ∧ ∀ file, file ∈ files ↔ ((recorded records) file).isSome)
    (running : ∀ r ∈ records, isPidAlive alive (some r.pid)) :
    Exact system records name (stopProcesses alive files (recorded records) name.text).events ↔
      Separate system records (recorded records) name := by
  constructor
  · intro exact
    refine ⟨?_, exact.labels distinct listed, exact.engine distinct listed running,
      exact.unswept distinct listed running⟩
    intro file content held globbed
    have inside := (listed.2 file).mpr (Option.isSome_iff_exists.mpr ⟨content, held⟩)
    obtain ⟨r, member, rfl⟩ :=
      List.mem_map.mp ((exact.found distinct listed).mem_iff.mp (List.mem_filter.mpr ⟨inside, globbed⟩))
    have pid := exact.held distinct listed r member
    rw [held, Option.join_some] at pid
    exact ⟨r, (mem_mine.mp member).1, (mem_mine.mp member).2, rfl, pid⟩
  · intro separate
    exact separate.exact distinct listed alive running

/-! ### Some systems -/

/-- The expression matches at the front. It is made of characters, dots, `.*` and escapes. -/
def matchesHere : Str → Str → Bool
  | [], _ => true
  | '.' :: '*' :: re, s => s.tails.any (matchesHere re)
  | '\\' :: c :: re, s => s.head? = some c && matchesHere re s.tail
  | '.' :: re, s => s ≠ [] && matchesHere re s.tail
  | c :: re, s => s.head? = some c && matchesHere re s.tail

def systemOf (procs : List ProcEntry) : System := ⟨procs, fun re line => line.tails.any (matchesHere re)⟩

def partA : Part := ⟨str "a", by simp [str], by simp [str]⟩
def partAB : Part := ⟨str "a_b", by simp [str], by simp [str]⟩
def partDot : Part := ⟨str "a.b", by simp [str], by simp [str]⟩
def partX : Part := ⟨str "aXb", by simp [str], by simp [str]⟩
def partEngine : Part := ⟨str "engine", by simp [str], by simp [str]⟩
def partManager : Part := ⟨str "manager", by simp [str], by simp [str]⟩

/-- The supervisor and the manager of `a`, and its session with the engine, which are on no record. -/
def inScreen : System := systemOf [
  { pid := 90, session := some (str "jap_a"), cmdline := str "SCREEN -dmS jap_a sh -c exec jampded +exec a-server.cfg" },
  { pid := 91, session := some (str "jap_a"), cmdline := str "jampded +exec a-server.cfg" },
  { pid := 100, session := none, cmdline := str "python3 japm.py start a" },
  { pid := 101, session := none, cmdline := str "python3 japm.py start a" }]

theorem stopProcesses_exact_single :
    inScreen.engineKill (str "a") = [90, 91, 90, 91] ∧
      Separate inScreen [⟨partA, partEngine, 100⟩, ⟨partA, partManager, 101⟩]
        (recorded [⟨partA, partEngine, 100⟩, ⟨partA, partManager, 101⟩]) partA :=
  ⟨by decide +kernel,
    (stopProcesses_exact_iff inScreen (fun _ => true) [⟨partA, partEngine, 100⟩, ⟨partA, partManager, 101⟩] _ partA
      (by decide) (listed_files (by decide)) (by decide)).mp ⟨by decide, by decide, by decide +kernel⟩⟩

/-- Stopping `a` signals the engine of `a_b`, as `b_engine`. -/
theorem stopProcesses_neighbour : signals (stopProcesses (fun _ => true) [Record.file ⟨partAB, partEngine, 200⟩]
      (recorded [⟨partAB, partEngine, 200⟩]) (str "a")).events = [(str "b_engine", 200)] ∧
    ¬ Exact (systemOf [⟨200, none, str "python3 japm.py start a_b"⟩]) [⟨partAB, partEngine, 200⟩] partA
      (stopProcesses (fun _ => true) [Record.file ⟨partAB, partEngine, 200⟩]
        (recorded [⟨partAB, partEngine, 200⟩]) partA.text).events := by
  refine ⟨by decide, fun exact => ?_⟩
  exact absurd exact.signals (by decide)

/-- Two engines that run without screen. -/
def withoutScreen : System := systemOf [
  { pid := 300, session := none, cmdline := str "jampded +exec a.b-server.cfg" },
  { pid := 400, session := none, cmdline := str "jampded +exec aXb-server.cfg" }]

/-- A name is a pattern to pkill: stopping `a.b` kills the engine of `aXb`, and its own one twice. -/
theorem stopProcesses_pattern :
    withoutScreen.signalled (str "a.b") (stopProcesses (fun _ => true)
        [Record.file ⟨partDot, partEngine, 300⟩, Record.file ⟨partX, partEngine, 400⟩]
        (recorded [⟨partDot, partEngine, 300⟩, ⟨partX, partEngine, 400⟩]) (str "a.b")).events = [300, 400, 300] ∧
      ¬ Separate withoutScreen [⟨partDot, partEngine, 300⟩, ⟨partX, partEngine, 400⟩]
        (recorded [⟨partDot, partEngine, 300⟩, ⟨partX, partEngine, 400⟩]) partDot := by
  refine ⟨by decide +kernel, fun separate => ?_⟩
  exact separate.unswept ⟨_, .head _, rfl, rfl⟩ ⟨partX, partEngine, 400⟩ (.tail _ (.head _)) (by decide +kernel)

end JaplusProxy.Manager
