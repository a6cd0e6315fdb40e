import JaplusProxy.Userinfo.CleanName
import JaplusProxy.Userinfo.InfoString

/-! SanitizeUserinfo of proxy.c. Its six blocks have one shape: look the key up
through a 512-byte buffer, and rewrite the pair when the value is dirty. -/
namespace JaplusProxy.Userinfo
open CString

/-- MAX_INFO_STRING overflow attempt, or nothing at all. -/
def userinfoLooksEvil (s : Bytes) : Bool := s.length == 0 || 1024 ≤ s.length

/-- One block: what makes the value of `key` dirty, and what replaces it. -/
structure KeyRule where
  key : Bytes
  dirty : Bytes → Bool
  fixed : Bytes → Bytes
  keyPlain : chr '\\' ∉ key
  fixedNulFree : ∀ val, 0 ∉ fixed val
  fixedPlain : ∀ val, chr '\\' ∉ val → chr '\\' ∉ fixed val
  short : ∀ val, key.length + (fixed val).length ≤ 70

def modelRule : KeyRule where
  key := lit "model"
  dirty val := strCaseEq val (lit "jedi_/red") 9 || strCaseEq val (lit "jedi_/blue") 10 ||
    strCaseEq val (lit "rancor") 6 || strCaseEq val (lit "wampa") 5 || !isAsciiClean val ||
    64 ≤ val.length
  fixed _ := lit "kyle"
  keyPlain := by decide
  fixedNulFree _ := by decide
  fixedPlain _ _ := by decide
  short _ := by decide

/-- The scan over the force powers from index `i`: the number of separators,
or `none` at a bad byte. -/
def forceScan : Nat → UInt8 → Bytes → Nat → Option Nat
  | _, _, [], seps => some seps
  | i, previous, c :: rest, seps =>
    if c ≠ chr '-' ∧ ¬ isDigit c then none
    else if c = chr '-' then
      if i < 1 ∨ 5 < i then none
      else if previous = chr '-' then none
      else forceScan (i + 1) c rest (seps + 1)
    else forceScan (i + 1) c rest seps

def forcepowersRule : KeyRule where
  key := lit "forcepowers"
  dirty val :=
    if val.length < 22 ∨ 24 < val.length then true
    else forceScan 0 0 val 0 != some 2
  fixed _ := lit "7-1-030000000000003332"
  keyPlain := by decide
  fixedNulFree _ := by decide
  fixedPlain _ _ := by decide
  short _ := by decide

def nameRule : KeyRule where
  key := lit "name"
  dirty val := val != cleanName val 512
  fixed val := cleanName val 512
  keyPlain := by decide
  fixedNulFree _ := cleanName_nulFree
  fixedPlain _ := cleanName_plain
  short _ := (Nat.add_le_add_left (cleanName_length_le ..) _).trans (by decide)

def siegeclassRule : KeyRule where
  key := lit "siegeclass"
  dirty val := (peek val != 0 && !isTokenChars val) || 64 ≤ val.length || hasCRLF val
  fixed _ := []
  keyPlain := by decide
  fixedNulFree _ := by decide
  fixedPlain _ _ := by decide
  short _ := by decide

/-- The hilt keys are checked alike. -/
def saberRule (key : Bytes) (keyPlain : chr '\\' ∉ key) (short : key.length ≤ 70) : KeyRule where
  key := key
  dirty val := !isPathChars val || 64 ≤ val.length || hasCRLF val
  fixed _ := []
  keyPlain := keyPlain
  fixedNulFree _ := by decide
  fixedPlain _ _ := by decide
  short _ := short

def saber1Rule : KeyRule := saberRule (lit "saber1") (by decide) (by decide)
def saber2Rule : KeyRule := saberRule (lit "saber2") (by decide) (by decide)

def userinfoRules : List KeyRule :=
  [modelRule, forcepowersRule, nameRule, siegeclassRule, saber1Rule, saber2Rule]

/-- One block on the string and the flag `changed`. -/
def applyRule (uilen : Nat) (state : Bytes × Int) (rule : KeyRule) : Bytes × Int :=
  match infoValue state.1 rule.key 512 with
  | none => state
  | some val =>
    if rule.dirty val then (infoSet state.1 uilen rule.key (rule.fixed val), 1) else state

structure Sanitized where
  rc : Int
  ui : Bytes
  /-- Written only on a kick. -/
  kickReason : Option Bytes
  deriving DecidableEq

/-- The cheat signature in the model key. -/
def cheatModel (ui : Bytes) : Bool :=
  match infoValue ui (lit "model") 512 with
  | some val => strCaseEq val (lit "darksidetools") 12
  | none => false

/-- -1 = kick, 0 = clean, 1 = fixed. -/
def sanitizeUserinfo (ui : Bytes) (uilen klen : Nat) : Sanitized :=
  if cheatModel ui then ⟨-1, ui, some ((lit "cheating detected").take (klen - 1))⟩
  else
    let (ui, changed) := userinfoRules.foldl (applyRule uilen) (ui, 0)
    ⟨changed, ui, none⟩

end JaplusProxy.Userinfo
