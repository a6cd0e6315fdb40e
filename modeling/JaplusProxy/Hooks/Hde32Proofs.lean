import JaplusProxy.Hooks.Hde32

/-! What the disassembler reads and what it returns. Each part is put in a form that no
longer looks at the table: which bytes it takes, and which fields and flags it sets. -/
namespace JaplusProxy.Hooks
open CString ByteMemory

/-! ### Fetching -/

section
variable {code code' : Code}

theorem fetch_append (first : fetch code p j = some a) (second : fetch code (p + j) k = some b) :
    fetch code p (j + k) = some (a ++ b) := by
  induction j generalizing p a with
  | zero =>
    cases first
    simpa using second
  | succ j ih =>
    simp only [fetch, Option.bind_eq_bind, Option.bind_eq_some_iff, Option.pure_def, Option.some.injEq] at first
    obtain ⟨byte, here, rest, found, rfl⟩ := first
    have tail := ih found (by rwa [Nat.add_assoc, Nat.add_comm 1 j])
    rw [Nat.add_right_comm, fetch, here, tail]
    rfl

theorem length_fetch (found : fetch code p k = some bytes) : bytes.length = k := by
  induction k generalizing p bytes with
  | zero =>
    cases found
    rfl
  | succ k ih =>
    simp only [fetch, Option.bind_eq_bind, Option.bind_eq_some_iff, Option.pure_def, Option.some.injEq] at found
    obtain ⟨byte, _, rest, found, rfl⟩ := found
    rw [List.length_cons, ih found]

theorem fetch_one (here : code p = some c) : fetch code p 1 = some [c] := by
  simp [fetch, here]

/-- The bytes below `n` are those of `code`; of the byte at `n` only that it can be read. -/
structure Agrees (code code' : Code) (n : Nat) : Prop where
  below : ∀ i < n, ∀ c, code i = some c → code' i = some c
  ahead : ∀ c, code n = some c → ∃ c', code' n = some c'

theorem Agrees.mono (agrees : Agrees code code' n) (before : m ≤ n) : Agrees code code' m := by
  refine ⟨fun i inside => agrees.below i (by omega), fun c here => ?_⟩
  rcases Nat.lt_or_eq_of_le before with less | rfl
  · exact ⟨c, agrees.below m less c here⟩
  · exact agrees.ahead c here

theorem fetch_agrees (found : fetch code p k = some bytes) (agrees : Agrees code code' (p + k)) :
    fetch code' p k = some bytes := by
  induction k generalizing p bytes with
  | zero => exact found
  | succ k ih =>
    simp only [fetch, Option.bind_eq_bind, Option.bind_eq_some_iff, Option.pure_def, Option.some.injEq] at found
    obtain ⟨byte, here, rest, found, rfl⟩ := found
    have tail := ih found (agrees.mono (by omega))
    rw [fetch, agrees.below p (by omega) byte here, tail]
    rfl

/-- Every byte can be read. -/
def Mapped (code : Code) : Prop := ∀ i, ∃ c, code i = some c

theorem fetch_mapped (mapped : Mapped code) (p k : Nat) : ∃ bytes, fetch code p k = some bytes := by
  induction k generalizing p with
  | zero => exact ⟨[], rfl⟩
  | succ k ih =>
    obtain ⟨c, here⟩ := mapped p
    obtain ⟨rest, found⟩ := ih (p + 1)
    exact ⟨c :: rest, by simp [fetch, here, found]⟩

end

/-! ### The table -/

/-- The control flags that the table holds. -/
def controls : List UInt8 := [0x00, 0x01, 0x02, 0x03, 0x04, 0x06, 0x10, 0x11, 0x14, 0x20, 0x50]

/-- What is read for an opcode: the flags of a group are a table entry further on. The
opcodes F6 and F7 get an immediate later, and C8 is ENTER. -/
def Controlled (ht : Nat) (c cflags : UInt8) : Prop :=
  cflags ∈ controls ∧ (c = 0xf6 ∨ c = 0xf7 → cflags = 1) ∧ (cflags = 6 ↔ ht = 0 ∧ c = 0xc8)

instance (ht : Nat) (c cflags : UInt8) : Decidable (Controlled ht c cflags) := inferInstanceAs (Decidable (_ ∧ _))

theorem lookup_one : ∀ c, (Cursor.lookup 0 c).any (Controlled 0 c ·.1) := by
  decide +kernel

theorem lookup_two : ∀ c, (Cursor.lookup deltaOpcodes c).any (Controlled deltaOpcodes c ·.1) := by
  decide +kernel

theorem prefixes_entry : ∀ c, (Cursor.entry deltaPrefixes c).isSome := by
  decide +kernel

theorem length_hde32Table : hde32Table.length = 516 := by
  decide +kernel

theorem table_read (inside : i < 516) : ∃ row, hde32Table[i]? = some row :=
  ⟨_, List.getElem?_eq_getElem (length_hde32Table ▸ inside)⟩

/-! ### Checks -/

/-- The flags that say which fields an instruction has, and that it is too long. -/
def shapeMask : BitVec 32 := 0x49ff

/-- None of them. -/
def Clean (errors : BitVec 32) : Prop := errors &&& shapeMask = 0

theorem Clean.or (first : Clean a) (second : Clean b) : Clean (a ||| b) := by
  rw [Clean, BitVec.and_or_distrib_right, first, second]
  rfl

def Hde32s.raise (hs : Hde32s) (errors : BitVec 32) : Hde32s := { hs with flags := hs.flags ||| errors }

/-- A check only adds flags of errors. -/
theorem Hde32s.fail_raise (hs : Hde32s) (reason : BitVec 32) (failed : Bool) (clean : Clean (fError ||| reason)) :
    ∃ errors, Clean errors ∧ hs.fail reason failed = hs.raise errors := by
  cases failed with
  | false => exact ⟨0, rfl, by simp [fail, raise]⟩
  | true => exact ⟨_, clean, rfl⟩

theorem Hde32s.raise_raise (hs : Hde32s) (a b : BitVec 32) : (hs.raise a).raise b = hs.raise (a ||| b) := by
  simp [raise, BitVec.or_assoc]

namespace Cursor

theorem lockLoop_ends (op reg : UInt8) (tableEnd fuel ht k : Nat) (steps : ht + 2 * k = tableEnd)
    (inside : tableEnd ≤ 516) (enough : k < fuel) : ∃ ok, lockLoop op reg tableEnd fuel ht = some ok := by
  induction k generalizing ht fuel with
  | zero =>
    obtain ⟨fuel, rfl⟩ := Nat.exists_eq_add_of_lt enough
    exact ⟨false, by simp [lockLoop, ← steps]⟩
  | succ k ih =>
    obtain ⟨fuel, rfl⟩ := Nat.exists_eq_add_of_lt enough
    obtain ⟨known, here⟩ := table_read (show ht < 516 by omega)
    obtain ⟨row, next⟩ := table_read (show ht + 1 < 516 by omega)
    obtain ⟨ok, rest⟩ := ih (k + 1 + fuel) (ht + 2) (by omega) (by omega)
    have more : ht ≠ tableEnd := by omega
    by_cases same : known = op
    · exact ⟨!rowBit row reg, by simp [lockLoop, more, here, next, same]⟩
    · exact ⟨ok, by simp [lockLoop, more, here, same, rest]⟩

theorem memLoop_ends (opcode pref reg : UInt8) (tableEnd fuel ht k : Nat) (steps : ht + 3 * k = tableEnd)
    (inside : tableEnd ≤ 516) (enough : k < fuel) : ∃ error, memLoop opcode pref reg tableEnd fuel ht = some error := by
  induction k generalizing ht fuel with
  | zero =>
    obtain ⟨fuel, rfl⟩ := Nat.exists_eq_add_of_lt enough
    exact ⟨false, by simp [memLoop, ← steps]⟩
  | succ k ih =>
    obtain ⟨fuel, rfl⟩ := Nat.exists_eq_add_of_lt enough
    obtain ⟨known, here⟩ := table_read (show ht < 516 by omega)
    obtain ⟨mask, next⟩ := table_read (show ht + 1 < 516 by omega)
    obtain ⟨row, last⟩ := table_read (show ht + 2 < 516 by omega)
    obtain ⟨error, rest⟩ := ih (k + 1 + fuel) (ht + 3) (by omega) (by omega)
    have more : ht ≠ tableEnd := by omega
    by_cases same : known = opcode
    · by_cases applies : mask &&& pref = 0
      · exact ⟨false, by simp [memLoop, more, here, next, same, applies]⟩
      · exact ⟨!rowBit row reg, by simp [memLoop, more, here, next, last, same, applies]⟩
    · exact ⟨error, by simp [memLoop, more, here, same, rest]⟩

theorem fpuError_ends (hs : Hde32s) (opcode : UInt8) (small : hs.modrmReg < 8) :
    ∃ error, fpuError hs opcode = some error := by
  rw [fpuError]
  split
  · rename_i x87
    have row : (opcode - 0xd9).toNat ≤ 6 := by
      have low := UInt8.le_iff_toNat_le.mp x87.2.1
      have high := UInt8.le_iff_toNat_le.mp x87.2.2
      rw [UInt8.toNat_sub_of_le _ _ x87.2.1]
      simp only [UInt8.reduceToNat] at low high ⊢
      omega
    have reg : hs.modrmReg.toNat < 8 := UInt8.lt_iff_toNat_lt.mp small
    simp only [deltaFpuModrm, deltaFpuReg]
    split
    · obtain ⟨row, found⟩ := table_read (show 0xf8 + (opcode - 0xd9).toNat * 8 + hs.modrmReg.toNat < 516 by omega)
      exact ⟨_, by rw [found]; rfl⟩
    · obtain ⟨row, found⟩ := table_read (show 0xf1 + (opcode - 0xd9).toNat < 516 by omega)
      exact ⟨_, by rw [found]; rfl⟩
  · exact ⟨false, rfl⟩

theorem lockError_ends (hs : Hde32s) (opcode pref : UInt8) : ∃ error, lockError hs opcode pref = some error := by
  rw [lockError, length_hde32Table]
  obtain ⟨two, found₂⟩ := lockLoop_ends opcode hs.modrmReg deltaOpOnlyMem 516 deltaOp2LockOk 9 rfl (by decide)
    (by decide)
  obtain ⟨one, found₁⟩ := lockLoop_ends (opcode &&& 0xfe) hs.modrmReg deltaOp2LockOk 516 deltaOpLockOk 12 rfl
    (by decide)
    (by decide)
  rw [found₁, found₂]
  split
  · exact ⟨_, rfl⟩
  · split
    · exact ⟨_, rfl⟩
    · split
      · exact ⟨_, rfl⟩
      · exact ⟨_, rfl⟩

theorem operandError_ends (hs : Hde32s) (opcode pref : UInt8) :
    ∃ mod error, operandError hs opcode pref = some (mod, error) := by
  obtain ⟨two, found₂⟩ := memLoop_ends opcode pref hs.modrmReg 516 516 deltaOp2OnlyMem 14 rfl (by decide) (by decide)
  obtain ⟨one, found₁⟩ := memLoop_ends opcode pref hs.modrmReg deltaOp2OnlyMem 516 deltaOpOnlyMem 5 rfl (by decide)
    (by decide)
  simp only [operandError, length_hde32Table, found₁, found₂]
  repeat' split
  all_goals exact ⟨_, _, rfl⟩

theorem control_form (s : Cursor) (start : s.ht = 0 ∨ s.ht = deltaOpcodes) :
    ∃ errors cflags x, Clean errors ∧ Controlled s.ht s.c cflags ∧
      control s = some { s with hs := s.hs.raise errors, cflags := cflags, x := x } := by
  have known : (lookup s.ht s.c).any (Controlled s.ht s.c ·.1) := by
    rcases start with start | start
    · rw [start]
      exact lookup_one s.c
    · rw [start]
      exact lookup_two s.c
  rw [control]
  cases read : lookup s.ht s.c with
  | none =>
    rw [read] at known
    exact absurd known Bool.false_ne_true
  | some found =>
    rw [read] at known
    obtain ⟨cflags, x, undefined⟩ := found
    obtain ⟨errors, clean, raised⟩ := s.hs.fail_raise fErrorOpcode undefined rfl
    exact ⟨errors, cflags, x, clean, of_decide_eq_true known, by simp [raised]⟩

theorem control_p (ran : control s = some t) : t.p = s.p := by
  obtain ⟨found, _, rest⟩ := Option.bind_eq_some_iff.mp ran
  cases rest
  rfl

theorem checkPrefixes_form (s : Cursor) :
    ∃ errors, Clean errors ∧ checkPrefixes s = some { s with hs := s.hs.raise errors } := by
  rw [checkPrefixes]
  split
  · obtain ⟨mask, found⟩ := Option.isSome_iff_exists.mp (prefixes_entry s.c)
    obtain ⟨errors, clean, raised⟩ := s.hs.fail_raise fErrorOpcode (decide (mask &&& s.pref ≠ 0)) rfl
    refine ⟨errors, clean, ?_⟩
    rw [found, ← raised]
    rfl
  · exact ⟨0, rfl, by simp [Hde32s.raise]⟩

theorem modrmReg_lt : ∀ c : UInt8, (c &&& 0x3f) >>> 3 < 8 := by
  decide +kernel

theorem checkModrm_form (s : Cursor) (c : UInt8) :
    ∃ mod errors, Clean errors ∧ checkModrm s c = some (mod, (withModrm s.hs c).raise errors) := by
  have small := modrmReg_lt c
  rw [checkModrm]
  change (withModrm s.hs c).modrmReg < 8 at small
  generalize withModrm s.hs c = hs at small
  obtain ⟨e₁, clean₁, raised₁⟩ := hs.fail_raise fErrorOpcode (rowBit s.x hs.modrmReg) rfl
  obtain ⟨fpu, fpuEnds⟩ := fpuError_ends (hs.raise e₁) s.c small
  obtain ⟨e₂, clean₂, raised₂⟩ := (hs.raise e₁).fail_raise fErrorOpcode fpu rfl
  obtain ⟨lock, lockEnds⟩ := lockError_ends ((hs.raise e₁).raise e₂) s.c s.pref
  obtain ⟨e₃, clean₃, raised₃⟩ := ((hs.raise e₁).raise e₂).fail_raise fErrorLock lock rfl
  obtain ⟨mod, failed, operandEnds⟩ := operandError_ends (((hs.raise e₁).raise e₂).raise e₃) s.c s.pref
  obtain ⟨e₄, clean₄, raised₄⟩ := (((hs.raise e₁).raise e₂).raise e₃).fail_raise fErrorOperand failed rfl
  refine ⟨mod, _, ((clean₁.or clean₂).or clean₃).or clean₄, ?_⟩
  simp only [raised₁, fpuEnds, raised₂, lockEnds, raised₃, operandEnds, raised₄, Option.bind_eq_bind,
    Option.bind_some, Option.pure_def]
  simp only [Hde32s.raise_raise]

end Cursor

/-! ### Prefixes -/

/-- The bytes that stand before an opcode. -/
def prefixBytes : Bytes := [0xf3, 0xf2, 0xf0, 0x26, 0x2e, 0x36, 0x3e, 0x64, 0x65, 0x66, 0x67]

/-- The last byte of a kind, or 0. -/
def lastOf (kind : Bytes) (bytes : Bytes) : UInt8 := (bytes.filter (· ∈ kind)).getLastD 0

theorem lastOf_append (kind bytes : Bytes) (c : UInt8) :
    lastOf kind (bytes ++ [c]) = if c ∈ kind then c else lastOf kind bytes := by
  rw [lastOf, List.filter_append]
  split
  · rename_i inside
    simp [inside]
  · rename_i outside
    simp [outside, lastOf]

/-- Of each group of prefixes the last is recorded. -/
structure Recorded (bytes : Bytes) (hs : Hde32s) : Prop where
  rep : hs.pRep = lastOf [0xf3, 0xf2] bytes
  lock : hs.pLock = lastOf [0xf0] bytes
  seg : hs.pSeg = lastOf [0x26, 0x2e, 0x36, 0x3e, 0x64, 0x65] bytes
  operandSize : hs.p66 = lastOf [0x66] bytes
  addressSize : hs.p67 = lastOf [0x67] bytes

namespace Cursor

theorem takePrefix_p (taken : takePrefix s = some t) : t.p = s.p := by
  simp only [takePrefix] at taken
  repeat' split at taken
  all_goals cases taken
  all_goals rfl

theorem takePrefix_some (taken : takePrefix s = some t) (recorded : Recorded bytes s.hs) :
    s.c ∈ prefixBytes ∧ Recorded (bytes ++ [s.c]) t.hs ∧ t.ht = s.ht := by
  have append := lastOf_append
  obtain ⟨rep, lock, seg, operandSize, addressSize⟩ := recorded
  simp only [takePrefix] at taken
  -- one goal for each case of the switch
  repeat' split at taken
  all_goals cases taken
  case isFalse.isFalse.isFalse.isTrue c =>
    rcases c with c | c | c | c | c | c
    all_goals exact ⟨by simp [c, prefixBytes], ⟨by simp [append, c, rep], by simp [append, c, lock],
      by simp [append, c], by simp [append, c, operandSize], by simp [append, c, addressSize]⟩, rfl⟩
  all_goals
    rename_i c
    exact ⟨by simp [c, prefixBytes], ⟨by simp [append, c, rep], by simp [append, c, lock], by simp [append, c, seg],
      by simp [append, c, operandSize], by simp [append, c, addressSize]⟩, rfl⟩

theorem takePrefix_none (taken : takePrefix s = none) : s.c ∉ prefixBytes := by
  intro inside
  simp only [prefixBytes, List.mem_cons, List.not_mem_nil, or_false] at inside
  rcases inside with c | c | c | c | c | c | c | c | c | c | c
  all_goals simp [takePrefix, c] at taken

/-- The loop stops behind the first other byte, or after its last turn. -/
theorem prefixes_form (ran : prefixes code n s = some t) (recorded : Recorded bytes s.hs) :
    t.ht = s.ht ∧ (t.p = s.p + n ∨ ∃ before, (∀ c ∈ before, c ∈ prefixBytes) ∧ t.c ∉ prefixBytes ∧
      Recorded (bytes ++ before) t.hs ∧ t.p = s.p + (before.length + 1) ∧
      fetch code s.p (before.length + 1) = some (before ++ [t.c])) := by
  induction n generalizing s bytes with
  | zero =>
    cases ran
    exact ⟨rfl, .inl rfl⟩
  | succ n ih =>
    obtain ⟨c, here, rest⟩ := Option.bind_eq_some_iff.mp ran
    dsimp only at rest
    cases taken : takePrefix { s with c := c, p := s.p + 1 } with
    | none =>
      rw [taken] at rest
      cases rest
      exact ⟨rfl, .inr ⟨[], by simp, takePrefix_none taken, by simpa using recorded, rfl, fetch_one here⟩⟩
    | some u =>
      rw [taken] at rest
      obtain ⟨inside, recorded, kept⟩ := takePrefix_some taken recorded
      have moved : u.p = s.p + 1 := takePrefix_p taken
      obtain ⟨later, ends⟩ := ih rest recorded
      refine ⟨later.trans kept, ?_⟩
      rw [moved] at ends
      rcases ends with whole | ⟨before, prefixed, other, recorded, stop, found⟩
      · exact .inl (by simpa only [Nat.add_assoc, Nat.add_comm 1 n] using whole)
      · refine .inr ⟨c :: before, by simpa using ⟨inside, prefixed⟩, other, by simpa using recorded, ?_, ?_⟩
        · rw [stop, List.length_cons]
          omega
        · have joined := fetch_append (fetch_one here) found
          rwa [Nat.add_comm 1] at joined

end Cursor

/-! ### What a part reads -/

namespace Cursor

/-- A part that gets to its end goes at most `k` bytes on. It read nothing behind the byte
at which it stops, and of that byte it used nothing. -/
def Reads (k : Nat) (part : Code → Cursor → Option Cursor) : Prop :=
  ∀ code s t, part code s = some t → s.p ≤ t.p ∧ t.p ≤ s.p + k ∧
    ∀ code', Agrees code code' t.p → part code' s = some t

namespace Reads
variable {f g : Code → Cursor → Option Cursor}

theorem mono (reads : Reads j f) (bound : j ≤ k) : Reads k f := by
  intro code s t ran
  obtain ⟨forward, near, same⟩ := reads code s t ran
  exact ⟨forward, by omega, same⟩

theorem bind (first : Reads j f) (second : Reads k g) : Reads (j + k) fun code s => (f code s).bind (g code) := by
  intro code s u ran
  obtain ⟨t, ran₁, ran₂⟩ := Option.bind_eq_some_iff.mp ran
  obtain ⟨forward₁, near₁, same₁⟩ := first code s t ran₁
  obtain ⟨forward₂, near₂, same₂⟩ := second code t u ran₂
  refine ⟨by omega, by omega, fun code' agrees => ?_⟩
  simp only [same₁ code' (agrees.mono forward₂), Option.bind_some]
  exact same₂ code' agrees

theorem ite (cond : Cursor → Prop) [DecidablePred cond] (yes : Reads k f) (no : Reads k g) :
    Reads k fun code s => if cond s then f code s else g code s := by
  intro code s t ran
  by_cases holds : cond s
  · simp only [if_pos holds] at ran ⊢
    exact yes code s t ran
  · simp only [if_neg holds] at ran ⊢
    exact no code s t ran

/-- It looks at no code. -/
theorem of_cursor {h : Cursor → Option Cursor} (kept : ∀ s t, h s = some t → t.p = s.p) : Reads k fun _ => h := by
  intro code s t ran
  have same := kept s t ran
  exact ⟨by omega, by omega, fun _ _ => ran⟩

/-- It takes the byte at which it stands. -/
theorem take {part : UInt8 → Code → Cursor → Option Cursor} {h : UInt8 → Cursor → Cursor}
    (reads : ∀ c, Reads k (part c)) (moved : ∀ c s, (h c s).p = s.p + 1) :
    Reads (k + 1) fun code s => (code s.p).bind fun c => part c code (h c s) := by
  intro code s t ran
  obtain ⟨c, here, rest⟩ := Option.bind_eq_some_iff.mp ran
  obtain ⟨forward, near, same⟩ := reads c code (h c s) t rest
  rw [moved] at forward near
  refine ⟨by omega, by omega, fun code' agrees => ?_⟩
  simp only [agrees.below s.p (by omega) c here, Option.bind_some]
  exact same code' agrees

end Reads

theorem storeImm_some : storeImm code s size flags = some t ↔ ∃ bytes, fetch code s.p size = some bytes ∧
    { s with hs := { s.hs with flags := s.hs.flags ||| flags, imm := store s.hs.imm bytes }, p := s.p + size } = t := by
  simp only [storeImm, Option.bind_eq_bind, Option.bind_eq_some_iff, Option.some.injEq]

theorem storeDisp_some : storeDisp code s size flags = some t ↔ ∃ bytes, fetch code s.p size = some bytes ∧
    { s with hs := { s.hs with flags := s.hs.flags ||| flags, disp := store s.hs.disp bytes }, p := s.p + size } = t := by
  simp only [storeDisp, Option.bind_eq_bind, Option.bind_eq_some_iff, Option.some.injEq]

theorem reads_storeImm (size : Nat) (flags : BitVec 32) : Reads size fun code s => storeImm code s size flags := by
  intro code s t ran
  obtain ⟨bytes, found, rfl⟩ := storeImm_some.mp ran
  refine ⟨Nat.le_add_right .., Nat.le_refl _, fun code' agrees => ?_⟩
  simp [storeImm, fetch_agrees found agrees]

theorem reads_storeDisp (size : Nat) (flags : BitVec 32) : Reads size fun code s => storeDisp code s size flags := by
  intro code s t ran
  obtain ⟨bytes, found, rfl⟩ := storeDisp_some.mp ran
  refine ⟨Nat.le_add_right .., Nat.le_refl _, fun code' agrees => ?_⟩
  simp [storeDisp, fetch_agrees found agrees]

theorem prefixes_succ (code : Code) (n : Nat) (s : Cursor) : prefixes code (n + 1) s = (code s.p).bind fun c =>
    (takePrefix { s with c := c, p := s.p + 1 }).elim (some { s with c := c, p := s.p + 1 }) (prefixes code n) := by
  rw [prefixes, Option.bind_eq_bind]
  refine Option.bind_congr fun c _ => ?_
  dsimp only
  cases takePrefix { s with c := c, p := s.p + 1 } <;> rfl

theorem reads_prefixes (n : Nat) : Reads n fun code s => prefixes code n s := by
  induction n with
  | zero =>
    exact .of_cursor fun s t ran => by
      cases ran
      rfl
  | succ n ih =>
    have turn : Reads n fun code s => (takePrefix s).elim (some s) (prefixes code n) := by
      intro code s t ran
      dsimp only at ran ⊢
      cases taken : takePrefix s with
      | none =>
        rw [taken] at ran
        cases ran
        exact ⟨by omega, by omega, fun code' _ => rfl⟩
      | some u =>
        have kept := takePrefix_p taken
        rw [taken] at ran
        rw [← kept]
        exact ih code u t ran
    simp only [prefixes_succ]
    exact Reads.take (h := fun c s => { s with c := c, p := s.p + 1 }) (fun _ => turn) fun _ _ => rfl

theorem reads_opcode : Reads 1 opcode := by
  intro code s t ran
  simp only [opcode] at ran
  by_cases two : s.c = 0x0f
  · simp only [if_pos two, Option.bind_eq_bind, Option.bind_eq_some_iff, Option.some.injEq] at ran
    obtain ⟨c, here, rfl⟩ := ran
    exact ⟨by simp, by simp, fun code' agrees => by simp [opcode, two, agrees.below s.p (by simp) c here]⟩
  · simp only [if_neg two] at ran
    have kept : t.p = s.p := by
      split at ran
      all_goals cases ran
      all_goals rfl
    exact ⟨by omega, by omega, fun code' _ => by simpa only [opcode, if_neg two] using ran⟩

theorem dispSize_mem (pref mod rm : UInt8) : dispSize pref mod rm ∈ [0, 1, 2, 4] := by
  rw [dispSize]
  repeat' split
  all_goals decide

theorem dispSize_le (pref mod rm : UInt8) : dispSize pref mod rm ≤ 4 := by
  have member := dispSize_mem pref mod rm
  simp only [List.mem_cons, List.not_mem_nil, or_false] at member
  omega

/-- The byte ahead is taken or given back. -/
theorem reads_address (mod : UInt8) : Reads 5 fun code s => address code s mod := by
  intro code s t ran
  have small := dispSize_le s.pref mod s.hs.modrmRm
  obtain ⟨c, ahead, rest⟩ := Option.bind_eq_some_iff.mp ran
  dsimp only at rest
  by_cases sib : mod ≠ 3 ∧ s.hs.modrmRm = 4 ∧ s.pref &&& pre67 = 0
  · rw [if_pos sib] at rest
    obtain ⟨forward, near, same⟩ := reads_storeDisp _ _ code _ t rest
    have size : (if c &&& 7 = 5 ∧ mod &&& 1 = 0 then 4 else dispSize s.pref mod s.hs.modrmRm) ≤ 4 := by
      split
      · exact Nat.le_refl 4
      · exact small
    simp only at forward near
    refine ⟨by omega, by omega, fun code' agrees => ?_⟩
    simp only [address, agrees.below s.p (by omega) c ahead, Option.bind_eq_bind, Option.bind_some, if_pos sib]
    exact same code' agrees
  · rw [if_neg sib] at rest
    obtain ⟨forward, near, same⟩ := reads_storeDisp _ _ code _ t rest
    simp only at forward near
    refine ⟨by omega, by omega, fun code' agrees => ?_⟩
    obtain ⟨c', ahead'⟩ := (agrees.mono forward).ahead c ahead
    simp only [address, ahead', Option.bind_eq_bind, Option.bind_some, if_neg sib]
    exact same code' agrees

theorem reads_modrm : Reads 6 modrm := by
  intro code s t ran
  obtain ⟨c, here, rest⟩ := Option.bind_eq_some_iff.mp ran
  obtain ⟨⟨mod, hs⟩, checked, rest⟩ := Option.bind_eq_some_iff.mp rest
  obtain ⟨forward, near, same⟩ := reads_address mod code _ t rest
  simp only at forward near
  refine ⟨by omega, by omega, fun code' agrees => ?_⟩
  simp only [modrm, agrees.below s.p (by omega) c here, checked, Option.bind_eq_bind, Option.bind_some]
  exact same code' agrees

theorem reads_operand : Reads 6 operand :=
  .ite (fun s => s.cflags &&& cModrm ≠ 0) reads_modrm (.of_cursor fun s t ran => by
    cases ran
    rfl)

theorem reads_immediates : Reads 11 immediates := by
  have none : Reads 0 fun _ s => some s := .of_cursor fun s t ran => by
    cases ran
    rfl
  have immP66 : Reads 4 immP66 := .ite _ (none.mono (by omega))
    (.ite _ ((reads_storeImm 2 _).mono (by omega)) (reads_storeImm 4 _))
  have imm16 : Reads 2 imm16 := .ite _ (none.mono (by omega))
    (.ite _ (reads_storeDisp 2 _) (.ite _ (reads_storeDisp 2 _) (reads_storeImm 2 _)))
  have imm8 : Reads 1 imm8 := .ite _ (none.mono (by omega)) (reads_storeImm 1 _)
  have relative : Reads 4 relative := .ite _ (reads_storeImm 4 _)
    (.ite _ ((reads_storeImm 1 _).mono (by omega)) (none.mono (by omega)))
  exact .ite _ (.ite _ ((reads_storeImm 2 _).mono (by omega)) ((reads_storeImm 4 _).mono (by omega)))
    (immP66.bind (imm16.bind (imm8.bind relative)))

/-! ### Every part ends -/

section
variable {code : Code} (mapped : Mapped code) (s : Cursor)
include mapped

theorem prefixes_ends (n : Nat) : ∃ t, prefixes code n s = some t := by
  induction n generalizing s with
  | zero => exact ⟨s, rfl⟩
  | succ n ih =>
    obtain ⟨c, here⟩ := mapped s.p
    simp only [prefixes, here, Option.bind_eq_bind, Option.bind_some]
    split
    · exact ih _
    · exact ⟨_, rfl⟩

/-- The tables are those of one-byte or of two-byte opcodes. -/
theorem opcode_ends (start : s.ht = 0) : ∃ t, opcode code s = some t ∧ (t.ht = 0 ∨ t.ht = deltaOpcodes) := by
  simp only [opcode]
  split
  · obtain ⟨c, here⟩ := mapped s.p
    simp only [here, Option.bind_eq_bind, Option.bind_some]
    exact ⟨_, rfl, .inr rfl⟩
  · split
    · exact ⟨_, rfl, .inl start⟩
    · exact ⟨_, rfl, .inl start⟩

theorem storeImm_ends (size : Nat) (flags : BitVec 32) : ∃ t, storeImm code s size flags = some t := by
  obtain ⟨bytes, found⟩ := fetch_mapped mapped s.p size
  exact ⟨_, by rw [storeImm, found]; rfl⟩

theorem storeDisp_ends (size : Nat) (flags : BitVec 32) : ∃ t, storeDisp code s size flags = some t := by
  obtain ⟨bytes, found⟩ := fetch_mapped mapped s.p size
  exact ⟨_, by rw [storeDisp, found]; rfl⟩

theorem operand_ends : ∃ t, operand code s = some t := by
  rw [operand]
  split
  · obtain ⟨c, here⟩ := mapped s.p
    obtain ⟨next, ahead⟩ := mapped (s.p + 1)
    obtain ⟨mod, errors, _, checked⟩ := checkModrm_form s c
    simp only [modrm, address, here, checked, ahead, Option.bind_eq_bind, Option.bind_some]
    split
    · exact storeDisp_ends mapped _ _ _
    · exact storeDisp_ends mapped _ _ _
  · exact ⟨_, rfl⟩

theorem immediates_ends : ∃ t, immediates code s = some t := by
  have imm := storeImm_ends mapped
  have disp := storeDisp_ends mapped
  rw [immediates]
  split
  · split
    · exact imm ..
    · exact imm ..
  · obtain ⟨s₁, ends₁⟩ : ∃ t, immP66 code s = some t := by
      rw [immP66]
      repeat' split
      exacts [⟨s, rfl⟩, imm .., imm ..]
    obtain ⟨s₂, ends₂⟩ : ∃ t, imm16 code s₁ = some t := by
      rw [imm16]
      repeat' split
      exacts [⟨s₁, rfl⟩, disp .., disp .., imm ..]
    obtain ⟨s₃, ends₃⟩ : ∃ t, imm8 code s₂ = some t := by
      rw [imm8]
      split
      exacts [⟨s₂, rfl⟩, imm ..]
    rw [ends₁]
    simp only [Option.bind_eq_bind, Option.bind_some, ends₂, ends₃, relative]
    repeat' split
    exacts [imm .., imm .., ⟨s₃, rfl⟩]

end

end Cursor

end JaplusProxy.Hooks
