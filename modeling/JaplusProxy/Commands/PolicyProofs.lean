import JaplusProxy.Commands.Policy

/-! The am* policy as a table: the name selects a rule, and the rule is a
condition on the complete list of argument tokens. -/
namespace JaplusProxy.Commands
open CString

/-- Newlines and command chaining. -/
def isSeparator (c : UInt8) : Bool := isCRLF c || isChaining c

/-- The space-joined argument string. -/
def joined (toks : List Bytes) : Bytes := [chr ' '].intercalate toks

def Clean (forbidden : UInt8 → Bool) (toks : List Bytes) : Prop :=
  ∀ t ∈ toks, ∀ c ∈ t, forbidden c = false

/-! ### Joined arguments -/

theorem joined_cons : joined (t :: toks) = t ++ toks.flatMap (chr ' ' :: ·) := by
  induction toks generalizing t with
  | nil => simp [joined]
  | cons u toks ih =>
    rw [joined, List.intercalate_cons_cons, ← joined, ih]
    simp

/-- A byte class without the blank sees the join as it sees the tokens. -/
theorem any_joined (toks : List Bytes) (blank : forbidden (chr ' ') = false) :
    (joined toks).any forbidden = false ↔ Clean forbidden toks := by
  cases toks with
  | nil => simp [joined, Clean]
  | cons t toks =>
    simp only [joined_cons, List.any_append, List.any_flatMap, List.any_cons, blank, Bool.false_or,
      Bool.or_eq_false_iff, List.any_eq_false, Clean, List.mem_cons, forall_eq_or_imp,
      Bool.not_eq_true]

theorem any_separator : s.any isSeparator = (hasCRLF s || hasChaining s) := by
  induction s with
  | nil => rfl
  | cons c s ih =>
    simp only [hasCRLF, hasChaining] at ih ⊢
    simp only [List.any_cons, ih, isSeparator]
    cases isCRLF c <;> cases isChaining c <;> simp

theorem clean_separator : Clean isSeparator toks ↔ Clean isCRLF toks ∧ Clean isChaining toks := by
  simp only [Clean, isSeparator, Bool.or_eq_false_iff]
  constructor
  · intro clean
    constructor
    · intro t member c inside
      exact (clean t member c inside).1
    · intro t member c inside
      exact (clean t member c inside).2
  · intro clean t member c inside
    exact ⟨clean.1 t member c inside, clean.2 t member c inside⟩

/-- The narrow classes exclude the separators. -/
theorem separator_excluded : ∀ c, isSeparator c = true →
    isTokenByte c = false ∧ isPathByte c = false ∧ isNumberByte c = false := by
  decide +kernel

theorem any_notNumber : (s.any fun c => !isNumberByte c) =
    (hasCRLF s || hasChaining s || !isNumberChars s) := by
  rw [← any_separator]
  induction s with
  | nil => rfl
  | cons c s ih =>
    simp only [isNumberChars] at ih ⊢
    simp only [List.any_cons, List.all_cons, ih]
    have excluded := separator_excluded c
    cases number : isNumberByte c <;> cases separator : isSeparator c <;> simp_all

theorem clean_of_all {allowed : UInt8 → Bool} (narrow : ∀ c, isSeparator c = true → allowed c = false)
    (all : (t : Bytes).all allowed = true) : Clean isSeparator [t] := by
  intro u member c inside
  obtain rfl := List.mem_singleton.mp member
  cases separator : isSeparator c with
  | false => rfl
  | true =>
    have := narrow c separator
    simp [List.all_eq_true.mp all c inside] at this

/-! ### Rules -/

inductive AmRule where
  | screen (forbidden : UInt8 → Bool) (cap : Nat)
  | sink (allowed : Bytes → Bool)
  | rename
  | effect

def AmRule.blocks (args : Bytes) (argc : Int) (arg1 : Bytes) : AmRule → Bool
  | .screen forbidden cap => args.any forbidden || cap < args.length
  | .sink allowed => !(argc == 2 && peek arg1 != 0 && arg1.length ≤ 64 && allowed arg1)
  | .rename => peek arg1 == 0 || arg1.any isSeparator || 64 < arg1.length
  | .effect => peek arg1 == 0 || args.any isSeparator || 512 < args.length || !isPathChars arg1

def amRule (cmd : Bytes) : AmRule :=
  if strCasePrefix cmd (lit "amsay") 5 || strCasePrefix cmd (lit "ampsay") 6 then .screen isCRLF 256
  else if strCasePrefix cmd (lit "amvstr") 6 then .sink isTokenChars
  else if strCasePrefix cmd (lit "ammap") 5 then .sink isMapChars
  else if strCasePrefix cmd (lit "amlogin") 7 then .screen isCRLF 128
  else if strCasePrefix cmd (lit "amrename") 8 then .rename
  else if strCasePrefix cmd (lit "amtele") 6 || strCasePrefix cmd (lit "amtelemark") 10 ||
      strCasePrefix cmd (lit "amorigin") 8 then .screen (fun c => !isNumberByte c) 512
  else if strCasePrefix cmd (lit "amplayefx") 9 || strCasePrefix cmd (lit "amweather") 9 then .effect
  else if strCasePrefix cmd (lit "ampoll") 6 then .screen isSeparator 256
  else .screen isSeparator 512

theorem blocks_separator : AmRule.blocks args argc arg1 (.screen isSeparator cap) =
    (hasCRLF args || hasChaining args || cap < args.length) := by
  rw [AmRule.blocks, any_separator]

/-- The source tests the length before the number class. -/
theorem blocks_number : AmRule.blocks args argc arg1 (.screen (fun c => !isNumberByte c) cap) =
    (hasCRLF args || hasChaining args || cap < args.length || !isNumberChars args) := by
  rw [AmRule.blocks, any_notNumber, Bool.or_right_comm]

theorem blocks_rename : AmRule.blocks args argc arg1 .rename =
    (peek arg1 == 0 || hasCRLF arg1 || hasChaining arg1 || 64 < arg1.length) := by
  rw [AmRule.blocks, any_separator, Bool.or_assoc (peek arg1 == 0) (hasCRLF arg1)]

theorem blocks_effect : AmRule.blocks args argc arg1 .effect =
    (peek arg1 == 0 || hasCRLF args || hasChaining args || 512 < args.length || !isPathChars arg1) := by
  rw [AmRule.blocks, any_separator, Bool.or_assoc (peek arg1 == 0) (hasCRLF args)]

/-- The source's chain of branches is the table. -/
theorem jaPlusBlock_eq : jaPlusBlock cmd args argc arg1 = (amRule cmd).blocks args argc arg1 := by
  simp only [amRule, apply_ite (AmRule.blocks args argc arg1), blocks_separator, blocks_number,
    blocks_rename, blocks_effect]
  rfl

/-- What a rule asks of the complete arguments. -/
def AmRule.Admits : AmRule → List Bytes → Prop
  | .screen forbidden cap, toks => Clean forbidden toks ∧ (joined toks).length ≤ cap
  | .sink allowed, toks => ∃ t, toks = [t] ∧ t ≠ [] ∧ t.length ≤ 64 ∧ allowed t = true
  | .rename, toks => ∃ t rest, toks = t :: rest ∧ t ≠ [] ∧ Clean isSeparator [t] ∧ t.length ≤ 64
  | .effect, toks => ∃ t rest, toks = t :: rest ∧ t ≠ [] ∧ Clean isSeparator toks ∧
      (joined toks).length ≤ 512 ∧ isPathChars t = true

/-- Chat-class and password names, where a semicolon is harmless. -/
def chatName (cmd : Bytes) : Bool :=
  strCasePrefix cmd (lit "amsay") 5 || strCasePrefix cmd (lit "ampsay") 6 ||
    strCasePrefix cmd (lit "amlogin") 7

/-- The kinds of rule a name can select, and what each leaves out. -/
inductive AmRule.Kind (cmd : Bytes) : AmRule → Prop where
  | chat (cap : Nat) : chatName cmd = true → Kind cmd (.screen isCRLF cap)
  | screen (cap : Nat) : forbidden (chr ' ') = false →
      (∀ c, isSeparator c = true → forbidden c = true) → Kind cmd (.screen forbidden cap)
  | sink : (∀ t, allowed t = true → Clean isSeparator [t]) → Kind cmd (.sink allowed)
  | rename : strCasePrefix cmd (lit "amrename") 8 = true → Kind cmd .rename
  | effect : Kind cmd .effect

theorem amRule_kind (cmd : Bytes) : (amRule cmd).Kind cmd := by
  have token (t : Bytes) (good : isTokenChars t = true) : Clean isSeparator [t] :=
    clean_of_all (fun c separator => (separator_excluded c separator).1) good
  have map (t : Bytes) (good : isMapChars t = true) : Clean isSeparator [t] := by
    simp only [isMapChars, Bool.and_eq_true] at good
    exact clean_of_all (fun c separator => (separator_excluded c separator).2.1) good.1.1
  have number (c : UInt8) (separator : isSeparator c = true) : (!isNumberByte c) = true := by
    simp [(separator_excluded c separator).2.2]
  have branch {c : Prop} [Decidable c] {a b : AmRule} (yes : c → a.Kind cmd) (no : ¬ c → b.Kind cmd) :
      (if c then a else b).Kind cmd := iteInduction yes no
  exact branch (fun say => .chat _ (by rw [chatName, say, Bool.true_or])) fun _ =>
    branch (fun _ => .sink token) fun _ =>
    branch (fun _ => .sink map) fun _ =>
    branch (fun login => .chat _ (by rw [chatName, login, Bool.or_true])) fun _ =>
    branch .rename fun _ =>
    branch (fun _ => .screen _ (by decide) number) fun _ =>
    branch (fun _ => .effect) fun _ =>
    branch (fun _ => .screen _ (by decide) fun _ => id) fun _ => .screen _ (by decide) fun _ => id

theorem any_single : t.any isSeparator = false ↔ Clean isSeparator [t] := by
  simpa [joined] using any_joined [t] (by decide : isSeparator (chr ' ') = false)

/-- On complete tokens a command passes exactly when its rule admits them. -/
theorem amRule_admits (toks : List CStr) :
    (amRule cmd).blocks (joined (toks.map CStr.bytes)) (toks.length + 1)
        ((toks.map CStr.bytes).headD []) = false ↔
      (amRule cmd).Admits (toks.map CStr.bytes) := by
  have screen {forbidden : UInt8 → Bool} {cap : Nat} (blank : forbidden (chr ' ') = false) :
      (AmRule.screen forbidden cap).blocks (joined (toks.map CStr.bytes)) (toks.length + 1)
          ((toks.map CStr.bytes).headD []) = false ↔
        (AmRule.screen forbidden cap).Admits (toks.map CStr.bytes) := by
    simp [AmRule.blocks, AmRule.Admits, ← any_joined _ blank]
  have kind := amRule_kind cmd
  generalize amRule cmd = rule at kind
  cases kind with
  | chat cap => exact screen (by decide)
  | screen cap blank => exact screen blank
  | sink =>
    simp only [AmRule.blocks, AmRule.Admits]
    cases toks with
    | nil => simp
    | cons t rest =>
      have filled := peek_eq_zero_iff t.nulFree
      cases rest with
      | nil => simp [filled, and_assoc]
      | cons u rest =>
        have several : ¬ ((rest.length : Int) + 1 + 1 + 1 = 2) := by omega
        simp [several]
  | rename =>
    simp only [AmRule.blocks, AmRule.Admits]
    cases toks with
    | nil => simp
    | cons t rest =>
      simp only [← any_single]
      simp [peek_eq_zero_iff t.nulFree, and_assoc]
  | effect =>
    simp only [AmRule.blocks, AmRule.Admits]
    cases toks with
    | nil => simp
    | cons t rest =>
      have screened := any_joined (t.bytes :: rest.map CStr.bytes)
        (by decide : isSeparator (chr ' ') = false)
      simp [peek_eq_zero_iff t.nulFree, screened, and_assoc]

/-! ### The policy comment -/

/-- No newline in any argument, and no chaining outside the chat class. -/
def Harmless (cmd : Bytes) (toks : List Bytes) : Prop :=
  Clean isCRLF toks ∧ (chatName cmd = false → Clean isChaining toks)

/-- Every rule but one keeps what it admits harmless. -/
theorem amRule_harmless (admitted : (amRule cmd).Admits toks) (notRename : amRule cmd ≠ .rename) :
    Harmless cmd toks := by
  have both (clean : Clean isSeparator toks) : Harmless cmd toks :=
    ⟨(clean_separator.mp clean).1, fun _ => (clean_separator.mp clean).2⟩
  have kind := amRule_kind cmd
  generalize amRule cmd = rule at admitted notRename kind
  cases kind with
  | chat cap chat => exact ⟨admitted.1, fun other => absurd chat (by simp [other])⟩
  | screen cap _ wide =>
    apply both
    intro t member c inside
    cases separator : isSeparator c with
    | false => rfl
    | true => exact absurd (admitted.1 t member c inside) (by simp [wide c separator])
  | sink narrow =>
    obtain ⟨t, rfl, _, _, good⟩ := admitted
    exact both (narrow t good)
  | rename => contradiction
  | effect =>
    obtain ⟨_, _, _, _, clean, _⟩ := admitted
    exact both clean

/-- amrename looks at its first argument only. -/
def RenameTail (cmd : Bytes) (toks : List Bytes) : Prop :=
  strCasePrefix cmd (lit "amrename") 8 = true ∧
    (∃ t rest, toks = t :: rest ∧ t ≠ [] ∧ t.length ≤ 64 ∧ Clean isSeparator [t] ∧
      ¬ Clean isSeparator rest)

/-- A name that begins with amrename begins with none of the names tested before it. -/
theorem rename_other (named : strCasePrefix cmd (lit "amrename") 8 = true) :
    strCasePrefix cmd (lit "amsay") 5 = false ∧ strCasePrefix cmd (lit "ampsay") 6 = false ∧
      strCasePrefix cmd (lit "amvstr") 6 = false ∧ strCasePrefix cmd (lit "ammap") 5 = false ∧
      strCasePrefix cmd (lit "amlogin") 7 = false := by
  have other {b : Bytes} {n : Nat} (visible : 0 ∉ b) (within : n ≤ b.length)
      (differ : (((lit "amrename").take 8).take n).map lower ≠ ((b.take n).take 8).map lower) :
      strCasePrefix cmd b n = false :=
    strCasePrefix_conflict named ⟨by decide, visible⟩ ⟨by decide, within⟩ differ
  exact ⟨other (by decide) (by decide) (by decide), other (by decide) (by decide) (by decide),
    other (by decide) (by decide) (by decide), other (by decide) (by decide) (by decide),
    other (by decide) (by decide) (by decide)⟩

theorem amRule_rename : amRule cmd = .rename ↔ strCasePrefix cmd (lit "amrename") 8 = true := by
  constructor
  · intro selected
    have kind := amRule_kind cmd
    rw [selected] at kind
    cases kind
    assumption
  · intro named
    obtain ⟨say, psay, vstr, map, login⟩ := rename_other named
    simp [amRule, named, say, psay, vstr, map, login]

theorem chatName_rename (named : strCasePrefix cmd (lit "amrename") 8 = true) : chatName cmd = false := by
  obtain ⟨say, psay, _, _, login⟩ := rename_other named
  simp [chatName, say, psay, login]

/-- An admitted command is harmless, unless it hides a separator behind the
first argument of amrename; then it is admitted all the same. -/
theorem jaPlusBlock_harmless_iff (cmd : Bytes) (toks : List CStr) :
    (jaPlusBlock cmd (joined (toks.map CStr.bytes)) (toks.length + 1)
        ((toks.map CStr.bytes).headD []) = false → Harmless cmd (toks.map CStr.bytes)) ↔
      ¬ RenameTail cmd (toks.map CStr.bytes) := by
  rw [jaPlusBlock_eq, amRule_admits]
  constructor
  · rintro harmless ⟨named, t, rest, same, filled, short, clean, dirty⟩
    have admitted : (amRule cmd).Admits (toks.map CStr.bytes) := by
      rw [amRule_rename.mpr named]
      exact ⟨t, rest, same, filled, clean, short⟩
    have result := harmless admitted
    have both := clean_separator.mpr ⟨result.1, result.2 (chatName_rename named)⟩
    rw [same] at both
    exact dirty fun u member => both u (List.mem_cons_of_mem _ member)
  · intro tidy admitted
    by_cases named : amRule cmd = .rename
    · have text := admitted
      rw [named] at text
      obtain ⟨t, rest, same, filled, clean, short⟩ := text
      have later : Clean isSeparator rest := by
        by_contra dirty
        exact tidy ⟨amRule_rename.mp named, t, rest, same, filled, short, clean, dirty⟩
      have both : Clean isSeparator (toks.map CStr.bytes) := by
        rw [same]
        intro u member
        rcases List.mem_cons.mp member with rfl | member
        · exact clean u (by simp)
        · exact later u member
      exact ⟨(clean_separator.mp both).1, fun _ => (clean_separator.mp both).2⟩
    · exact amRule_harmless admitted named

theorem jaPlusBlock_amrename_chained :
    jaPlusBlock (lit "amrename") (joined [lit "Jan", lit "x;quit"]) 3 (lit "Jan") = false ∧
      ¬ Harmless (lit "amrename") [lit "Jan", lit "x;quit"] := by
  refine ⟨by decide +kernel, fun harmless => ?_⟩
  have chained := harmless.2 (by decide +kernel) (lit "x;quit") (by simp) (chr ';') (by decide)
  exact absurd chained (by decide)

end JaplusProxy.Commands
