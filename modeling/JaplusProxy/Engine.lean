import JaplusProxy.CString
import Mathlib.Logic.Function.Basic

/-! The engine behind the syscall pointer, and Proxy_Syscall in front of it. The
model starts after dllEntry, when the pointer is set. Strings the engine copies
into a buffer are cut to its size less the NUL. -/
namespace JaplusProxy
open CString

/-- The fields of usercmd_t that the proxy names. -/
structure Usercmd where
  angles : Int × Int × Int
  forcesel : UInt8
  deriving DecidableEq

/-- What the engine holds, and what it would answer next. -/
structure Engine where
  /-- Tokens of the client command being executed. -/
  argv : List CStr
  userinfo : Int → CStr
  cvar : Bytes → Int
  usercmd : Int → Usercmd
  /-- Return value and text of the next G_GET_ENTITY_TOKEN. -/
  entityToken : Int × Bytes

inductive Syscall where
  | print (text : Bytes)
  | dropClient (client : Int) (reason : Bytes)
  | sendServerCommand (client : Int) (text : Option Bytes)
  | setConfigstring (index : Int) (text : Option Bytes)
  | getUserinfo (client : Int) (size : Nat)
  | setUserinfo (client : Int) (text : Bytes)
  | getUsercmd (client : Int) (buffer : Bool)
  | getEntityToken (buffer : Bool) (size : Int)
  | other (cmd : Int)
  deriving DecidableEq

/-- The return value and what the caller's buffer holds. -/
structure Reply where
  ret : Int := 0
  text : Option Bytes := none
  usercmd : Option Usercmd := none
  deriving DecidableEq

namespace Engine

/-- Executes a command, with nothing else to answer. -/
def executing (argv : List CStr) : Engine where
  argv := argv
  userinfo := fun _ => ⟨[], by decide⟩
  cvar := fun _ => 0
  usercmd := fun _ => ⟨(0, 0, 0), 0⟩
  entityToken := (0, [])

variable (e : Engine)

def argc : Int := e.argv.length

def token (n : Nat) : Bytes := (e.argv[n]?.map CStr.bytes).getD []

/-- MAX_INFO_STRING bounds what G_SET_USERINFO keeps. -/
def withUserinfo (client : Int) (text : Bytes) : Engine :=
  { e with userinfo := Function.update e.userinfo client (CStr.ofBytes (text.take 1023)) }

@[simp] theorem withUserinfo_self :
    (e.withUserinfo client text).userinfo client = CStr.ofBytes (text.take 1023) :=
  Function.update_self ..

theorem withUserinfo_other (other : c ≠ client) : (e.withUserinfo client text).userinfo c = e.userinfo c :=
  Function.update_of_ne other ..

/-- `g_engine` -/
def call : Syscall → Engine × Reply
  | .getUserinfo client size => (e, { text := some ((e.userinfo client).bytes.take (size - 1)) })
  | .setUserinfo client text => (e.withUserinfo client text, {})
  | .getUsercmd client buffer => (e, { usercmd := if buffer then some (e.usercmd client) else none })
  | .getEntityToken buffer _ =>
    (e, { ret := e.entityToken.1, text := if buffer then some e.entityToken.2 else none })
  | _ => (e, {})

end Engine

/-! ### Helpers that talk back to the engine -/

/-- `Engine_Argv`: what the buffer of `len` bytes holds afterwards. -/
def engineArgv (e : Engine) (n len : Nat) : Bytes := (e.token n).take (len - 1)

def engineGetUserinfo (e : Engine) (client : Int) (len : Nat) : Bytes :=
  ((e.call (.getUserinfo client len)).2.text).getD []

def engineCvarInt (e : Engine) (name : Bytes) : Int := e.cvar name

/-! ### Game to engine -/

structure Effect where
  engine : Engine
  reply : Reply
  /-- The calls that reached the engine, in order. -/
  issued : List Syscall

def passThrough (e : Engine) (call : Syscall) : Effect := ⟨(e.call call).1, (e.call call).2, [call]⟩

/-- Out-of-range and levitation selections, and any roll. -/
def sanitizeUsercmd (ucmd : Usercmd) : Usercmd where
  forcesel := if ucmd.forcesel = 1 ∨ 19 ≤ ucmd.forcesel then 0xFF else ucmd.forcesel
  angles := (ucmd.angles.1, ucmd.angles.2.1, 0)

/-- The text of a token buffer of `size` bytes once it is terminated, and whether it was cut. -/
def capEntityToken (text : Bytes) (size : Int) : Bytes × Bool :=
  let text := (CStr.ofBytes (text.take (size - 1).toNat)).bytes
  let cap := if size - 1 < 1023 then (size - 1).toNat else 1023
  if cap < text.length then (text.take cap, true) else (text, false)

def proxySyscall (e : Engine) (call : Syscall) : Effect :=
  match call with
  | .getUsercmd _ _ =>
    let effect := passThrough e call
    { effect with reply.usercmd := effect.reply.usercmd.map sanitizeUsercmd }
  | .getEntityToken _ size =>
    let effect := passThrough e call
    match effect.reply.text with
    | none => effect
    | some text =>
      if effect.reply.ret ≠ 0 ∧ 0 < size then
        let (text, cut) := capEntityToken text size
        { effect with
          reply.text := some text
          issued := effect.issued ++
            if cut then [.print (lit "[japlus_proxy] truncated overlong entity token\n")] else [] }
      else effect
  | .sendServerCommand _ (some text) =>
    if 1022 < text.length then
      ⟨e, {}, [.print (lit "[japlus_proxy] blocked oversize servercommand\n")]⟩
    else passThrough e call
  | .setConfigstring index text =>
    if index < 0 ∨ 2048 < index then
      ⟨e, {}, [.print (lit "[japlus_proxy] blocked bad configstring index\n")]⟩
    else if text.any (8192 ≤ ·.length) then ⟨e, {}, []⟩
    else passThrough e call
  | _ => passThrough e call

end JaplusProxy
