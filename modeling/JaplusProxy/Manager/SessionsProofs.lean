import JaplusProxy.Manager.Sessions

/-! Which processes a start clears away. Its patterns are not anchored, so they find the
session of every instance whose name begins with the same characters. -/
namespace JaplusProxy.Manager
open PyString

/-- An instance name of letters and digits. -/
structure Name where
  text : Str
  alnum : ∀ c ∈ text, c.isAlphanum
  deriving DecidableEq

/-- The processes of an instance whose engine runs under its session. -/
structure Running (name : Name) (procs : List Proc) : Prop where
  session : ∀ p ∈ procs, p.session = sessionName name.text
  screen : ∃ p ∈ procs, sessionName name.text <:+: p.cmdline
  engine : ∃ p ∈ procs, str "+exec " ++ serverCfg name.text <:+: p.cmdline

/-- A start of `name` signals none of the processes, whatever `screen -list` prints
besides their session. -/
def Untouched (name : Name) (other : Name) (procs : List Proc) : Prop :=
  ∀ outputs, (∀ output ∈ outputs, sessionName other.text <:+: output) →
    ∀ command ∈ clearCommands name.text outputs, ∀ p ∈ procs, command.signals p = false

theorem sessionName_injective (same : sessionName left = sessionName right) : left = right :=
  List.append_cancel_left same

theorem screenThen_found (found : (Pattern.screenThen s).found line) : s <:+: line := by
  obtain ⟨rest, tail, here⟩ := List.any_eq_true.mp found
  simp only [Bool.and_eq_true, decide_eq_true_eq] at here
  exact here.2.trans ((List.drop_suffix 6 rest).isInfix.trans ((List.mem_tails ..).mp tail).isInfix)

theorem underscore_not_mem (name : Name) : '_' ∉ name.text :=
  fun member => absurd (name.alnum _ member) (by decide)

theorem Name.text_injective : Function.Injective Name.text := by
  rintro ⟨left, _⟩ ⟨right, _⟩ same
  cases same
  rfl

/-- The underscore stands once in a session name of letters and digits. -/
theorem sessionName_infix_iff (left right : Name) :
    sessionName left.text <:+: sessionName right.text ↔ left.text <+: right.text := by
  have spelt (name : Str) : sessionName name = 'j' :: 'a' :: 'p' :: '_' :: name := rfl
  constructor
  · intro inside
    have outside : ¬ 'j' :: 'a' :: 'p' :: '_' :: left.text <:+: right.text := fun inside =>
      underscore_not_mem right (inside.subset (by simp))
    rw [spelt, spelt] at inside
    simpa [List.infix_cons_iff, List.cons_prefix_cons, outside] using inside
  · intro front
    exact ((List.prefix_append_right_inj _).mpr front).isInfix

/-! ### What a start signals -/

theorem engineKill_mem (member : command ∈ clearCommands name outputs) :
    command ∈ engineKill name ∨ command ∈ staleLoop name 5 outputs := List.mem_append.mp member

/-- The loop quits the session of its own name, and looks for that name. -/
theorem staleLoop_mem (member : command ∈ staleLoop name tries outputs) :
    command = .list ∨ command = .wipe ∨ command = .quit (sessionName name) ∨
      command = .pkill (.text (sessionName name)) := by
  induction tries generalizing outputs with
  | zero => cases member
  | succ tries ih =>
    cases outputs with
    | nil =>
      rw [staleLoop, List.mem_singleton] at member
      exact .inl member
    | cons output outputs =>
      rw [staleLoop] at member
      rcases List.mem_cons.mp member with rfl | member
      · exact .inl rfl
      · split at member
        · simp only [List.cons_append, List.nil_append, List.mem_cons] at member
          rcases member with rfl | rfl | rfl | member
          · exact .inr (.inr (.inl rfl))
          · exact .inr (.inr (.inr rfl))
          · exact .inr (.inl rfl)
          · exact ih member
        · cases member

/-- A process of another session is spared when neither text stands in its command line. -/
theorem clearCommands_spares (foreign : p.session ≠ sessionName name) (noSession : ¬ sessionName name <:+: p.cmdline)
    (noExec : ¬ str "+exec " ++ serverCfg name <:+: p.cmdline) (issued : command ∈ clearCommands name outputs) :
    command.signals p = false := by
  have quit : Command.signals p (.quit (sessionName name)) = false := decide_eq_false foreign
  rcases engineKill_mem issued with first | stale
  · simp only [engineKill, List.mem_cons, List.not_mem_nil, or_false] at first
    rcases first with rfl | rfl | rfl | rfl
    · exact quit
    · exact Bool.eq_false_iff.mpr fun found => noSession (screenThen_found found)
    · rfl
    · exact decide_eq_false noExec
  · rcases staleLoop_mem stale with rfl | rfl | rfl | rfl
    · rfl
    · rfl
    · exact quit
    · exact decide_eq_false noSession

/-- A session of the own name that is still listed next to the other gets killed by its text. -/
theorem Untouched.session (untouched : Untouched name other procs) (member : p ∈ procs) :
    ¬ sessionName name.text <:+: p.cmdline := by
  intro found
  have listed : sessionName name.text <:+: sessionName other.text ++ sessionName name.text := List.infix_append_right
  have kill : Command.pkill (.text (sessionName name.text)) ∈
      clearCommands name.text [sessionName other.text ++ sessionName name.text] := by
    apply List.mem_append_right
    simp [staleLoop, listed]
  have spared := untouched _ (by simpa using List.infix_append_left) _ kill p member
  simp [Command.signals, Pattern.found, found] at spared

/-- A start spares another instance whatever is listed, when neither of its two texts
stands in a command line there. -/
theorem clearCommands_untouched_iff (name other : Name) (procs : List Proc) (different : name ≠ other)
    (running : Running other procs) :
    Untouched name other procs ↔ ∀ p ∈ procs,
      ¬ sessionName name.text <:+: p.cmdline ∧ ¬ str "+exec " ++ serverCfg name.text <:+: p.cmdline := by
  constructor
  · intro untouched p member
    constructor
    · exact untouched.session member
    · intro found
      have kill : Command.pkill (.text (str "+exec " ++ serverCfg name.text)) ∈ clearCommands name.text [] := by
        apply List.mem_append_left
        simp [engineKill]
      have spared := untouched [] (by simp) _ kill p member
      simp [Command.signals, Pattern.found, found] at spared
  · intro apart outputs _ command issued p member
    obtain ⟨noSession, noExec⟩ := apart p member
    refine clearCommands_spares (fun same => ?_) noSession noExec issued
    rw [running.session p member] at same
    exact different (Name.text_injective (sessionName_injective same).symm)

/-- An instance that is spared has a name that does not begin with the other. -/
theorem untouched_not_begins (running : Running other procs) (untouched : Untouched name other procs) :
    ¬ name.text <+: other.text := by
  intro front
  obtain ⟨p, member, screen⟩ := running.screen
  exact untouched.session member (((sessionName_infix_iff name other).mpr front).trans screen)

/-! ### Two instances -/

def gameServer : Launch where
  engine := str "linuxjampded"
  port := str "29070"
  gamedata := str "/srv/ja"
  fsGame := str "japlus"
  elog := str "/srv/ja/japlus/engine.log"

def nameJa : Name := ⟨str "ja", by simp [str]⟩
def nameJa2 : Name := ⟨str "ja2", by simp [str]⟩

theorem running_ja2 : Running nameJa2 (launched gameServer nameJa2.text) := by
  refine ⟨by decide +kernel, ⟨_, .head _, by decide +kernel⟩, ⟨_, .tail _ (.head _), by decide +kernel⟩⟩

theorem clearCommands_untouched_ja2 : Untouched nameJa2 nameJa (launched gameServer nameJa.text) := by
  have running : Running nameJa (launched gameServer nameJa.text) :=
    ⟨by decide +kernel, ⟨_, .head _, by decide +kernel⟩, ⟨_, .tail _ (.head _), by decide +kernel⟩⟩
  exact (clearCommands_untouched_iff nameJa2 nameJa _ (by decide) running).mpr (by decide +kernel)

/-- Starting `ja` kills the session of `ja2`. -/
theorem clearCommands_ja_kills_ja2 : Running nameJa2 (launched gameServer nameJa2.text) ∧
    ¬ Untouched nameJa nameJa2 (launched gameServer nameJa2.text) := by
  refine ⟨running_ja2, fun untouched => ?_⟩
  have spared := untouched [sessionName nameJa2.text] (by decide) (.pkill (.text (sessionName nameJa.text)))
    (by decide) _ (.head _)
  exact absurd spared (by decide +kernel)

end JaplusProxy.Manager
