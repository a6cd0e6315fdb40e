import JaplusProxy.Userinfo.NameProofs

/-! When a cleaned name is left as it is by a second cleaning. The loop looks for runs in
its input, where bytes that it drops still stand between the ones that it keeps. -/
namespace JaplusProxy.Userinfo
open CString

/-- A control or an extended byte. -/
def isDropped (c : UInt8) : Bool := c < 0x20 || isExtendedByte c

/-- The cleaner skips these in front of a name. -/
def isLead (c : UInt8) : Bool := c == chr ' ' || c == chr '*'

/-- The loop writes the byte that it stands at. -/
def keeps : Bytes → Bool
  | [] => false
  | c :: rest => !isDropped c && !startsRun (c :: rest)

/-- How many bytes of `front` are written when `rest` follows. -/
def keptBefore (rest : Bytes) : Bytes → Nat
  | [] => 0
  | c :: front => keptBefore rest front + if keeps (c :: front ++ rest) then 1 else 0

/-! ### The loop -/

theorem stripped_cons (c : UInt8) (rest : Bytes) :
    stripped (c :: rest) = if keeps (c :: rest) then c :: stripped rest else stripped rest := by
  rw [stripped]
  by_cases control : c < 0x20
  · simp [keeps, isDropped, control]
  · by_cases extended : isExtendedByte c = true
    · simp [keeps, isDropped, extended]
    · by_cases run : startsRun (c :: rest) = true <;> simp [keeps, isDropped, control, extended, run]

theorem stripped_drop (dropped : isDropped c = true) (rest : Bytes) : stripped (c :: rest) = stripped rest := by
  rw [stripped_cons, keeps, dropped, Bool.not_true, Bool.false_and, if_neg Bool.false_ne_true]

theorem stripped_run (run : startsRun (c :: rest) = true) : stripped (c :: rest) = stripped rest := by
  rw [stripped_cons, keeps, run, Bool.not_true, Bool.and_false, if_neg Bool.false_ne_true]

theorem stripped_fresh (visible : isDropped c = false) (fresh : ¬ startsRun (c :: rest) = true) :
    stripped (c :: rest) = c :: stripped rest := by
  rw [stripped_cons, keeps, visible, eq_false_of_ne_true fresh]
  rfl

theorem stripped_dropped (gap rest : Bytes) (dropped : ∀ b ∈ gap, isDropped b = true) :
    stripped (gap ++ rest) = stripped rest := by
  induction gap with
  | nil => rfl
  | cons b gap ih =>
    rw [List.cons_append, stripped_drop (dropped b (.head _)), ih fun a member => dropped a (.tail _ member)]

theorem startsRun_iff (c : UInt8) (rest : Bytes) : startsRun (c :: rest) = true ↔
    (c = chr ' ' ∨ c = chr '@') ∧ ∃ rest', rest = c :: c :: rest' := by
  match rest with
  | [] => simp [startsRun]
  | [b] => simp [startsRun]
  | a :: b :: rest =>
    simp only [startsRun, Bool.or_eq_true, Bool.and_eq_true, beq_iff_eq, List.cons.injEq]
    constructor
    · rintro (⟨⟨rfl, rfl⟩, rfl⟩ | ⟨⟨rfl, rfl⟩, rfl⟩)
      · exact ⟨.inl rfl, rest, rfl, rfl, rfl⟩
      · exact ⟨.inr rfl, rest, rfl, rfl, rfl⟩
    · rintro ⟨blank, _, rfl, rfl, _⟩
      rcases blank with rfl | rfl
      · exact .inl ⟨⟨rfl, rfl⟩, rfl⟩
      · exact .inr ⟨⟨rfl, rfl⟩, rfl⟩

/-- The last two bytes of a run are written, whatever follows. -/
theorem stripped_visible (rest : Bytes) (visible : isDropped c = false) : ∃ w, stripped (c :: rest) = c :: w := by
  induction rest with
  | nil => exact ⟨_, stripped_fresh visible (by simp [startsRun])⟩
  | cons b rest ih =>
    by_cases run : startsRun (c :: b :: rest) = true
    · obtain ⟨_, rest', same⟩ := (startsRun_iff c (b :: rest)).mp run
      obtain ⟨rfl, _⟩ := List.cons.inj same
      rw [stripped_run run]
      exact ih
    · exact ⟨_, stripped_fresh visible run⟩

theorem stripped_visible_twice (rest : Bytes) (visible : isDropped c = false) :
    ∃ w, stripped (c :: c :: rest) = c :: c :: w := by
  induction rest with
  | nil =>
    obtain ⟨w, last⟩ := stripped_visible [] visible
    exact ⟨w, by rw [stripped_fresh visible (by simp [startsRun]), last]⟩
  | cons b rest ih =>
    by_cases run : startsRun (c :: c :: b :: rest) = true
    · obtain ⟨_, rest', same⟩ := (startsRun_iff c (c :: b :: rest)).mp run
      obtain ⟨rfl, _⟩ := List.cons.inj (List.cons.inj same).2
      rw [stripped_run run]
      exact ih
    · obtain ⟨w, second⟩ := stripped_visible (b :: rest) visible
      exact ⟨w, by rw [stripped_fresh visible run, second]⟩

/-- Only dropped bytes stand in front of the first byte written. -/
theorem stripped_first (written : stripped s = c :: w) :
    ∃ gap rest, s = gap ++ c :: rest ∧ (∀ b ∈ gap, isDropped b = true) ∧ isDropped c = false ∧
      stripped (c :: rest) = c :: w := by
  induction s with
  | nil => simp [stripped] at written
  | cons a s ih =>
    by_cases dropped : isDropped a = true
    · rw [stripped_drop dropped] at written
      obtain ⟨gap, rest, rfl, gapDropped, visible, tail⟩ := ih written
      refine ⟨a :: gap, rest, rfl, ?_, visible, tail⟩
      simpa [dropped] using gapDropped
    · have visible := eq_false_of_ne_true dropped
      obtain ⟨w', head⟩ := stripped_visible s visible
      obtain ⟨rfl, _⟩ := List.cons.inj (head.symm.trans written)
      exact ⟨[], s, rfl, by simp, visible, written⟩

theorem stripped_append (front rest : Bytes) :
    ∃ w, stripped (front ++ rest) = w ++ stripped rest ∧ w.length = keptBefore rest front := by
  induction front with
  | nil => exact ⟨[], rfl, rfl⟩
  | cons c front ih =>
    obtain ⟨w, written, count⟩ := ih
    rw [List.cons_append, stripped_cons, keptBefore, List.cons_append, written]
    by_cases kept : keeps (c :: (front ++ rest)) = true
    · exact ⟨c :: w, by rw [if_pos kept, List.cons_append], by rw [if_pos kept, List.length_cons, count]⟩
    · exact ⟨w, by rw [if_neg kept], by rw [if_neg kept, count, Nat.add_zero]⟩

/-! ### Runs across dropped bytes -/

/-- Three times `c` with dropped bytes, at least one, and nothing else among them. -/
structure Split (c : UInt8) (gap gap' rest s : Bytes) : Prop where
  text : s = c :: gap ++ c :: gap' ++ c :: rest
  blank : c = chr ' ' ∨ c = chr '@'
  dropped : ∀ b ∈ gap ++ gap', isDropped b = true
  split : gap ++ gap' ≠ []

theorem blank_visible (blank : c = chr ' ' ∨ c = chr '@') : isDropped c = false := by
  rcases blank with rfl | rfl <;> decide

/-- With a dropped byte one or two places on, no run begins. -/
theorem startsRun_dropped (visible : isDropped c = false) (near : front.length ≤ 1) (dropped : isDropped b = true)
    (rest : Bytes) : ¬ startsRun (c :: (front ++ b :: rest)) = true := by
  rw [startsRun_iff]
  rintro ⟨_, rest', same⟩
  have apart : b ≠ c := by
    rintro rfl
    rw [visible] at dropped
    contradiction
  match front with
  | [] => exact apart (List.cons.inj same).1
  | [_] => exact apart (List.cons.inj (List.cons.inj same).2).1

theorem stripped_before (rest : Bytes) (visible : isDropped c = false) (dropped : ∀ b ∈ gap, isDropped b = true)
    (filled : gap ≠ []) : stripped (c :: (gap ++ rest)) = c :: stripped rest := by
  obtain ⟨b, gap, rfl⟩ := List.exists_cons_of_ne_nil filled
  have fresh := startsRun_dropped visible (show [].length ≤ 1 from Nat.zero_le _) (dropped b (.head _)) (gap ++ rest)
  exact (stripped_fresh visible fresh).trans (congrArg (c :: ·) (stripped_dropped _ rest dropped))

theorem stripped_twice_before (rest : Bytes) (visible : isDropped c = false)
    (dropped : ∀ b ∈ gap, isDropped b = true) (filled : gap ≠ []) :
    stripped (c :: c :: (gap ++ rest)) = c :: c :: stripped rest := by
  have second := stripped_before rest visible dropped filled
  obtain ⟨b, gap, rfl⟩ := List.exists_cons_of_ne_nil filled
  have fresh := startsRun_dropped visible (show [c].length ≤ 1 from Nat.le_refl _) (dropped b (.head _)) (gap ++ rest)
  exact (stripped_fresh visible fresh).trans (congrArg (c :: ·) second)

/-- A split run is written as three bytes in a row. -/
theorem Split.joined (split : Split c gap gap' rest s) : ∃ w, stripped s = c :: c :: c :: w := by
  obtain ⟨rfl, blank, dropped, filled⟩ := split
  have visible := blank_visible blank
  have front : ∀ b ∈ gap, isDropped b = true := fun b member => dropped b (List.mem_append_left _ member)
  have back : ∀ b ∈ gap', isDropped b = true := fun b member => dropped b (List.mem_append_right _ member)
  obtain ⟨w, last⟩ := stripped_visible rest visible
  simp only [List.cons_append, List.append_assoc]
  by_cases first : gap = []
  · subst first
    rw [List.nil_append, stripped_twice_before _ visible back (by simpa using filled), last]
    exact ⟨w, rfl⟩
  · rw [stripped_before _ visible front first]
    by_cases second : gap' = []
    · obtain ⟨w', twice⟩ := stripped_visible_twice rest visible
      rw [second, List.nil_append, twice]
      exact ⟨w', rfl⟩
    · rw [stripped_before _ visible back second, last]
      exact ⟨w, rfl⟩

/-- Three bytes in a row come from a split run, when the first of them is the next one read. -/
theorem split_of_joined (blank : c = chr ' ' ∨ c = chr '@') (kept : keeps (c :: s) = true)
    (written : stripped s = c :: c :: w) : ∃ gap gap' rest, Split c gap gap' rest (c :: s) := by
  have fresh : ¬ startsRun (c :: s) = true := by simp_all [keeps]
  rw [startsRun_iff] at fresh
  obtain ⟨gap, rest, rfl, front, visible, second⟩ := stripped_first written
  by_cases run : startsRun (c :: rest) = true
  · obtain ⟨_, rest', rfl⟩ := (startsRun_iff c rest).mp run
    refine ⟨gap, [], c :: rest', by simp, blank, by simpa using front, fun empty => fresh ⟨blank, ?_⟩⟩
    obtain rfl : gap = [] := by simpa using empty
    exact ⟨_, rfl⟩
  · rw [stripped_fresh visible run] at second
    obtain ⟨gap', rest', rfl, back, _, _⟩ := stripped_first (List.cons.inj second).2
    refine ⟨gap, gap', rest', by simp, blank, ?_, fun empty => fresh ⟨blank, ?_⟩⟩
    · simp only [List.mem_append]
      rintro b (member | member)
      · exact front b member
      · exact back b member
    · obtain ⟨rfl, rfl⟩ := List.append_eq_nil_iff.mp empty
      exact ⟨_, rfl⟩

/-- Where three bytes in a row are written, a split run is read. -/
theorem joined_iff (blank : c = chr ' ' ∨ c = chr '@') (n : Nat) :
    (∃ front w, stripped s = front ++ c :: c :: c :: w ∧ front.length = n) ↔
      ∃ front t gap gap' rest, s = front ++ t ∧ Split c gap gap' rest t ∧ keptBefore t front = n := by
  constructor
  · rintro ⟨front, w, written, rfl⟩
    induction s generalizing front with
    | nil => simp [stripped] at written
    | cons a s ih =>
      by_cases kept : keeps (a :: s) = true
      · rw [stripped_cons, if_pos kept] at written
        cases front with
        | nil =>
          obtain ⟨rfl, later⟩ := List.cons.inj written
          obtain ⟨gap, gap', rest, split⟩ := split_of_joined blank kept later
          exact ⟨[], a :: s, gap, gap', rest, rfl, split, rfl⟩
        | cons b front =>
          obtain ⟨front', t, gap, gap', rest, rfl, split, count⟩ := ih front (List.cons.inj written).2
          refine ⟨a :: front', t, gap, gap', rest, rfl, split, ?_⟩
          rw [keptBefore, List.cons_append, if_pos kept, count, List.length_cons]
      · rw [stripped_cons, if_neg kept] at written
        obtain ⟨front', t, gap, gap', rest, rfl, split, count⟩ := ih front written
        refine ⟨a :: front', t, gap, gap', rest, rfl, split, ?_⟩
        rw [keptBefore, List.cons_append, if_neg kept, count, Nat.add_zero]
  · rintro ⟨front, t, gap, gap', rest, rfl, split, rfl⟩
    obtain ⟨w, written, count⟩ := stripped_append front t
    obtain ⟨w', joined⟩ := split.joined
    exact ⟨w, w', by rw [written, joined], count⟩

/-! ### Cleaned names -/

/-- Dropped bytes stand between the front of the name and a blank or an asterisk. -/
def LateLead (s : Bytes) : Prop :=
  ∃ gap c rest, s.dropWhile isLead = gap ++ c :: rest ∧ (∀ b ∈ gap, isDropped b = true) ∧ isLead c = true

/-- A split run begins before the 61st byte that is written. -/
def SplitRun (s : Bytes) : Prop :=
  ∃ c front t gap gap' rest, s.dropWhile isLead = front ++ t ∧ Split c gap gap' rest t ∧ keptBefore t front ≤ 60

/-- A name that cleaning leaves as it is, and what this means for its bytes. -/
structure CleansStably (s : Bytes) : Prop where
  stable : cleanName (cleanName s 512) 512 = cleanName s 512
  lead : ∀ c, (cleanName s 512).head? = some c → c ≠ chr ' ' ∧ c ≠ chr '*'
  blanks : ¬ [chr ' ', chr ' ', chr ' '] <:+: cleanName s 512
  ats : ¬ [chr '@', chr '@', chr '@'] <:+: cleanName s 512

theorem lead_visible (lead : isLead c = true) : isDropped c = false := by
  simp only [isLead, Bool.or_eq_true, beq_iff_eq] at lead
  rcases lead with rfl | rfl <;> decide

theorem leftover_lead (s : Bytes) : LateLead s ↔ ∃ c, (leftover s).head? = some c ∧ isLead c = true := by
  constructor
  · rintro ⟨gap, c, rest, text, dropped, lead⟩
    obtain ⟨w, written⟩ := stripped_visible rest (lead_visible lead)
    have first : survivors s = c :: w :=
      (congrArg stripped text).trans ((stripped_dropped gap _ dropped).trans written)
    exact ⟨c, by rw [leftover, first]; rfl, lead⟩
  · rintro ⟨c, head, lead⟩
    cases written : survivors s with
    | nil => simp [leftover, written] at head
    | cons b w =>
      obtain rfl : b = c := by simpa [leftover, written] using head
      obtain ⟨gap, rest, text, dropped, _⟩ := stripped_first written
      exact ⟨gap, b, rest, text, dropped, lead⟩

/-- A run within the buffer. -/
theorem leftover_run (c : UInt8) (s : Bytes) : [c, c, c] <:+: leftover s ↔
    ∃ n ≤ 60, ∃ front w, survivors s = front ++ c :: c :: c :: w ∧ front.length = n := by
  rw [leftover]
  constructor
  · rintro ⟨front, back, taken⟩
    have short : (front ++ [c, c, c] ++ back).length ≤ 63 := by
      rw [taken]
      exact List.length_take_le ..
    have cut := List.take_append_drop 63 (survivors s)
    rw [← taken] at cut
    simp only [List.length_append, List.length_cons, List.length_nil] at short
    exact ⟨front.length, by omega, front, back ++ (survivors s).drop 63, by simpa using cut.symm, rfl⟩
  · rintro ⟨_, early, front, w, written, rfl⟩
    refine ⟨front, w.take (60 - front.length), ?_⟩
    have whole : front.take 63 = front := List.take_of_length_le (by omega)
    have left : 63 - front.length = (60 - front.length) + 3 := by omega
    rw [written, List.take_append, whole, left]
    simp

theorem splitRun_iff (s : Bytes) :
    SplitRun s ↔ ∃ c, (c = chr ' ' ∨ c = chr '@') ∧ [c, c, c] <:+: leftover s := by
  constructor
  · rintro ⟨c, front, t, gap, gap', rest, text, split, early⟩
    refine ⟨c, split.blank, (leftover_run c s).mpr ⟨_, early, ?_⟩⟩
    exact (joined_iff split.blank _).mpr ⟨front, t, gap, gap', rest, text, split, rfl⟩
  · rintro ⟨c, blank, run⟩
    obtain ⟨n, early, written⟩ := (leftover_run c s).mp run
    obtain ⟨front, t, gap, gap', rest, text, split, rfl⟩ := (joined_iff blank n).mp written
    exact ⟨c, front, t, gap, gap', rest, text, split, early⟩

/-- Where no byte is dropped and no run begins, everything is written. -/
theorem stripped_plain (visible : ∀ b ∈ s, isDropped b = false)
    (noRun : ∀ c, c = chr ' ' ∨ c = chr '@' → ¬ [c, c, c] <:+: s) : stripped s = s := by
  induction s with
  | nil => rfl
  | cons c s ih =>
    have fresh : ¬ startsRun (c :: s) = true := by
      rw [startsRun_iff]
      rintro ⟨blank, rest, rfl⟩
      exact noRun c blank ⟨[], rest, rfl⟩
    have later := ih (fun b member => visible b (.tail _ member))
      fun b blank inside => noRun b blank (List.infix_cons inside)
    rw [stripped_fresh (visible c (.head _)) fresh, later]

theorem cleanName_visibleBytes (member : c ∈ cleanName s 512) : isDropped c = false := by
  obtain ⟨text, plain⟩ := cleanName_bytes member
  simp [isDropped, text, plain]

/-- A name without a lead and without runs is left as it is. -/
theorem cleanName_fixed (short : s.length ≤ 63) (filled : s ≠ []) (visible : ∀ b ∈ s, isDropped b = false)
    (lead : ∀ c, s.head? = some c → isLead c = false)
    (noRun : ∀ c, c = chr ' ' ∨ c = chr '@' → ¬ [c, c, c] <:+: s) : cleanName s 512 = s := by
  have front : s.dropWhile isLead = s := by
    cases s with
    | nil => rfl
    | cons c s => exact List.dropWhile_cons_of_neg (by simp [lead c rfl])
  have kept : leftover s = s := by
    have survive : survivors s = s := (congrArg stripped front).trans (stripped_plain visible noRun)
    rw [leftover, survive, List.take_of_length_le short]
  rw [cleanName_eq, kept, if_neg filled]

/-- Cleaning is stable, unless dropped bytes hide a blank or an asterisk in front of the
name, or hide a run within what the buffer takes. -/
theorem cleanName_stable_iff (s : CStr) :
    CleansStably s.bytes ↔ ¬ LateLead s.bytes ∧ ¬ SplitRun s.bytes := by
  have name := cleanName_eq s.bytes
  constructor
  · rintro ⟨_, lead, blanks, ats⟩
    constructor
    · intro late
      obtain ⟨c, head, leads⟩ := (leftover_lead s.bytes).mp late
      rw [if_neg fun empty => by simp [empty] at head] at name
      rw [name] at lead
      obtain ⟨noBlank, noStar⟩ := lead c head
      simp [isLead, noBlank, noStar] at leads
    · intro run
      obtain ⟨c, blank, inside⟩ := (splitRun_iff s.bytes).mp run
      rw [if_neg fun empty => by simp [empty] at inside] at name
      rw [name] at blanks ats
      rcases blank with rfl | rfl
      · exact blanks inside
      · exact ats inside
  · rintro ⟨noLead, noSplit⟩
    rw [leftover_lead, not_exists] at noLead
    rw [splitRun_iff, not_exists] at noSplit
    have lead : ∀ c, (cleanName s.bytes 512).head? = some c → isLead c = false := by
      rw [name]
      split
      · intro c head
        obtain rfl : chr 'P' = c := Option.some.inj head
        decide
      · exact fun c head => by simpa [head] using noLead c
    have noRun : ∀ c, c = chr ' ' ∨ c = chr '@' → ¬ [c, c, c] <:+: cleanName s.bytes 512 := by
      rw [name]
      split
      · rintro c (rfl | rfl) <;> decide
      · exact fun c blank inside => noSplit c ⟨blank, inside⟩
    refine ⟨?_, fun c head => ?_, noRun _ (.inl rfl), noRun _ (.inr rfl)⟩
    · exact cleanName_fixed (cleanName_length_le ..) (cleanName_ne_nil (by decide))
        (fun _ => cleanName_visibleBytes) lead noRun
    · simpa [isLead] using lead c head

/-- A control byte inside a run of blanks lets three of them through. -/
theorem cleanName_unstable : cleanName (lit "a  \x01 b") 512 = lit "a   b" ∧
    cleanName (lit "a   b") 512 = lit "a  b" ∧ ¬ CleansStably (lit "a  \x01 b") := by
  have once : cleanName (lit "a  \x01 b") 512 = lit "a   b" := by decide
  have twice : cleanName (lit "a   b") 512 = lit "a  b" := by decide
  refine ⟨once, twice, fun stable => ?_⟩
  have same := stable.stable
  rw [once, twice] at same
  exact absurd same (by decide)

end JaplusProxy.Userinfo
