import JaplusProxy.Commands.Policy

/-! ShouldBlockClientCommand of proxy.c: the join of the argument tokens in
`args[1024]`, and the choice of the policy. -/
namespace JaplusProxy.Commands
open CString

/-- `args` holds the bytes written to the buffer, `len` the write index. -/
structure Join where
  args : Bytes
  len : Int
  deriving DecidableEq

/-- `memcpy(args + len, tok, n)`; `none` for a write past the buffer or apart from
what is already written. -/
def Join.write (j : Join) (tok : Bytes) : Option Join :=
  if j.len = j.args.length ∧ j.len + tok.length ≤ 1024 then
    some ⟨j.args ++ tok, j.len + tok.length⟩
  else none

/-- `sizeof(args) - 1 - (size_t)len` -/
def Join.room (j : Join) : Nat := ((1023 - j.len) % 4294967296).toNat

/-- One turn, for the token at index `i`. -/
def joinToken (e : Engine) (i : Nat) (j : Join) : Option Join :=
  let tok := engineArgv e i 256
  (if 1 < i ∧ j.len < 1023 then j.write [chr ' '] else some j).bind fun j =>
    let tlen := if j.room < tok.length then j.room else tok.length
    j.write (tok.take tlen)

/-- The turns left, and the next index. -/
def joinLoop (e : Engine) : Nat → Nat → Join → Option Join
  | 0, _, j => some j
  | left + 1, i, j => if j.len < 1023 then (joinToken e i j).bind (joinLoop e left (i + 1)) else some j

/-- `args` as a string, once `args[len] = 0` is written. -/
def joinArgs (e : Engine) : Option Bytes := do
  let j ← joinLoop e (e.argc - 1).toNat 1 ⟨[], 0⟩
  let closed ← j.write [0]
  some (CStr.ofBytes closed.args).bytes

def shouldBlockClientCommand (e : Engine) (clientNum : Int) : Option (Bool × List Syscall) := do
  let arg0 := engineArgv e 0 128
  let argc := e.argc
  let arg1 := engineArgv e 1 128
  let arg2 := engineArgv e 2 256
  let args ← joinArgs e
  if strCasePrefix arg0 (lit "am") 2 then some (jaPlusBlock arg0 args argc arg1, [])
  else some (vanillaBlock e clientNum arg0 args argc arg1 arg2)

end JaplusProxy.Commands
