import JaplusProxy.CString

/-! The info-string helpers of proxy.c: `\key\value\key\value`, read and
rewritten in place. The fuel of the two pair loops is the length of the string;
a turn always consumes two backslashes. -/
namespace JaplusProxy.Userinfo
open CString

/-- The pair a loop stands at, and where its value ends. -/
structure Cursor where
  key : Bytes
  value : Bytes
  vend : Bytes
  deriving DecidableEq

/-- `none` where a pair loop stops: no backslash here, or none after the key. -/
def readPair (p : Bytes) : Option Cursor :=
  if peek p = chr '\\' then
    let k := p.tail
    match strchr (chr '\\') k with
    | none => none
    | some kend =>
      let v := kend.tail
      let vend := (strchr (chr '\\') v).getD []
      some ⟨k.take (k.length - kend.length), v.take (v.length - vend.length), vend⟩
  else none

def infoValueLoop (key : Bytes) (outlen : Nat) : Nat → Bytes → Option Bytes
  | 0, _ => none
  | fuel + 1, info =>
    match readPair info with
    | none => none
    | some c =>
      if foldEq c.key key then some (c.value.take (outlen - 1))
      else if peek c.vend = 0 then none
      else infoValueLoop key outlen fuel c.vend

/-- `Info_Value`: the text copied to `out`, or `none` for a return of 0. -/
def infoValue (info key : Bytes) (outlen : Nat) : Option Bytes :=
  if outlen = 0 then none else infoValueLoop key outlen info.length info

/-- Copies every pair except those of `key` into `tmp[2048]`. -/
def infoSetLoop (key : Bytes) : Nat → Bytes → Bytes → Bytes
  | 0, _, tmp => tmp
  | fuel + 1, p, tmp =>
    match readPair p with
    | none => tmp
    | some c =>
      let pair := p.length - c.vend.length
      let tmp := if ¬ foldEq c.key key ∧ tmp.length + pair < 2048 - 1 then tmp ++ p.take pair else tmp
      if peek c.vend = 0 then tmp else infoSetLoop key fuel c.vend tmp

/-- `Info_Set`, returning what `info` holds afterwards. -/
def infoSet (info : Bytes) (infolen : Nat) (key value : Bytes) : Bytes :=
  let tmp := infoSetLoop key info.length info []
  let need := 1 + key.length + 1 + value.length
  let tmp :=
    if peek value ≠ 0 ∧ tmp.length + need < infolen - 1 ∧ tmp.length + need < 2048 - 1 then
      tmp ++ chr '\\' :: key ++ chr '\\' :: value
    else tmp
  tmp.take (infolen - 1)

end JaplusProxy.Userinfo
