import JaplusProxy.Commands.Filter
import JaplusProxy.Userinfo.Sanitize

/-! vmMain of proxy.c, and the sessions it is part of: the engine enters the game
through vmMain, the game calls back through Proxy_Syscall, and the engine changes
what it holds in between. -/
namespace JaplusProxy.Boundary
open CString Userinfo

/-- The entries that vmMain tells apart. -/
inductive GameCall where
  | clientConnect (client : Int)
  | clientBegin (client : Int)
  | clientUserinfoChanged (client : Int)
  | clientCommand (client : Int)
  | other (cmd : Int)
  deriving DecidableEq

/-- How vmMain treats an entry. -/
structure Passage where
  engine : Engine
  /-- The calls made on the way, less those that only read. -/
  issued : List Syscall
  /-- `none` where real_vmMain gives the answer, on the same arguments. -/
  answer : Option Int

/-- `return real_vmMain(...)` -/
def Passage.forward (e : Engine) (issued : List Syscall) : Passage := ⟨e, issued, none⟩

def Passage.block (e : Engine) (issued : List Syscall) : Passage := ⟨e, issued, some 0⟩

/-- A changed userinfo, once it is read into `ui[2048]`. -/
def userinfoChanged (e : Engine) (client : Int) : Passage :=
  let ui := engineGetUserinfo e client 2048
  if userinfoLooksEvil ui then
    .block e (proxySyscall e (.dropClient client (lit "bad userinfo"))).issued
  else
    let sanitized := sanitizeUserinfo ui 2048 128
    if sanitized.rc < 0 then .block e (Commands.punish e client)
    else if 0 < sanitized.rc then
      -- Engine_SetUserinfo goes to the engine itself
      .forward (e.call (.setUserinfo client sanitized.ui)).1 [.setUserinfo client sanitized.ui]
    else .forward e []

/-- `real` tells whether real_vmMain is set. -/
def vmMain (real : Bool) (e : Engine) (call : GameCall) : Option Passage :=
  if real = false then some ⟨e, [], some (-1)⟩
  else
    match call with
    | .clientCommand client =>
      (Commands.shouldBlockClientCommand e client).map fun (blocked, issued) =>
        if blocked then
          .block e (issued ++ (proxySyscall e (.print (lit "[japlus_proxy] blocked client command\n"))).issued)
        else .forward e issued
    | .clientUserinfoChanged client => some (userinfoChanged e client)
    | .clientConnect _ => some (.forward e [])
    | .clientBegin client =>
      if client < 0 ∨ 32 ≤ client then
        some (.block e (proxySyscall e
          (.print (lit "[japlus_proxy] blocked begin with bad clientNum\n"))).issued)
      else some (.forward e [])
    | .other _ => some (.forward e [])

/-! ### Sessions -/

structure Session where
  engine : Engine
  /-- LoadReal has adopted a library. -/
  real : Bool

inductive Event where
  /-- The engine comes to hold a userinfo for a client. -/
  | userinfo (client : Int) (ui : CStr)
  /-- The rest of what the engine holds changes. -/
  | turn (world : Engine)
  /-- The engine calls vmMain; `found` tells whether LoadReal would find a library. -/
  | enter (found : Bool) (call : GameCall)
  /-- The game calls Proxy_Syscall. -/
  | syscall (call : Syscall)

namespace Session

def step (s : Session) : Event → Option Session
  | .userinfo client ui =>
    some { s with engine := { s.engine with userinfo := Function.update s.engine.userinfo client ui } }
  | .turn world => some { s with engine := { world with userinfo := s.engine.userinfo } }
  | .enter found call =>
    (vmMain (s.real || found) s.engine call).map fun passage => ⟨passage.engine, s.real || found⟩
  | .syscall call => some { s with engine := (proxySyscall s.engine call).engine }

def run (s : Session) : List Event → Option Session
  | [] => some s
  | event :: events => (s.step event).bind fun t => t.run events

/-- vmMain passes this entry on to real_vmMain. -/
def Forwards (s : Session) (found : Bool) (call : GameCall) : Prop :=
  ∃ passage, vmMain (s.real || found) s.engine call = some passage ∧ passage.answer = none

/-- What the game reads as the userinfo of a client. -/
def readUserinfo (s : Session) (client : Int) (size : Nat) : Option Bytes :=
  (proxySyscall s.engine (.getUserinfo client size)).reply.text

end Session

end JaplusProxy.Boundary
