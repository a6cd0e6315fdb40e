import JaplusProxy.Boundary.VmMain
import JaplusProxy.Hooks.Hde32
import JaplusProxy.Hooks.Install
import JaplusProxy.Machine

/-! How proxy.c finds the game behind the wrapper. Each entry point looks for it until one
library is adopted; the hooks go in once, at that moment. -/
namespace JaplusProxy.Boundary
open CString X86Jump Machine

/-- NULL is `none`. -/
abbrev Handle := Addr

/-- How the dynamic loader, the environment and the system answer during one entry. -/
structure Loader where
  /-- `dlopen(path, RTLD_NOW | RTLD_DEEPBIND)` -/
  dlopen : Bytes → Option Handle
  /-- NULL is address 0. -/
  dlsym : Handle → Bytes → Addr
  /-- `dli_fname` of the wrapper's vmMain, where dladdr knows it -/
  dladdr : Option CStr
  /-- `getenv("JAPLUS_REAL")`; unset is as good as empty. -/
  env : Option CStr
  /-- What InstallPatches meets, apart from the library it is called with. -/
  process : Hooks.Process

/-- What the wrapper does that is seen outside. -/
inductive Deed where
  | opened (path : Bytes) (h : Handle)
  | closed (h : Handle)
  | installed (h : Handle)
  /-- `could not load real game lib` -/
  | unfound
  | noDllEntry
  | noVmMain
  /-- real_dllEntry is called. -/
  | initialised (f : Addr)
  /-- vmMain calls real_vmMain on its own arguments. -/
  | entered (f : Addr) (call : GameCall)
  /-- vmMain answers by itself. -/
  | answered (call : GameCall) (r : Int)
  deriving DecidableEq

/-- The static variables of proxy.c, with the hooks of patch.c. -/
structure Wrapper where
  /-- `g_engine` -/
  engine : Addr := 0
  /-- `g_real` -/
  real : Option Handle := none
  realDllEntry : Addr := 0
  realVmMain : Addr := 0
  patchesDone : Bool := false
  hooks : Hooks.State
  deeds : List Deed := []

namespace Wrapper

def note (s : Wrapper) (deed : Deed) : Wrapper := { s with deeds := s.deeds ++ [deed] }

section
-- the address of the wrapper's own vmMain
variable (own : Addr) (l : Loader)

def tryAdoptReal (s : Wrapper) (path : Bytes) : Wrapper × Bool :=
  if path = [] then (s, false)
  else
    match l.dlopen path with
    | none => (s, false)
    | some h =>
      let s := s.note (.opened path h)
      let vm := l.dlsym h (lit "vmMain")
      if vm = own then (s.note (.closed h), false)
      else
        let de := l.dlsym h (lit "dllEntry")
        if vm = 0 ∨ de = 0 then (s.note (.closed h), false)
        else ({ s with real := some h, realVmMain := vm, realDllEntry := de }, true)

/-- What stands before the last `/`, where there is one. -/
def directory (self : Bytes) : Option Bytes :=
  match self.reverse.dropWhile (· ≠ chr '/') with
  | [] => none
  | _ :: before => some before.reverse

/-- `snprintf(cand, sizeof(cand), "%s/%s", dir, name)` -/
def candidate (dir name : Bytes) : Bytes := (dir ++ [chr '/'] ++ name).take 1151

def tryAdoptRealNextToSelf (s : Wrapper) : Wrapper :=
  match l.dladdr.bind fun self => directory self.bytes with
  | none => s
  | some dir =>
    if 1024 ≤ dir.length then s
    else
      let (s, adopted) := s.tryAdoptReal own l (candidate dir (lit "japlus_real_i386.so"))
      if adopted then s else (s.tryAdoptReal own l (candidate dir (lit "jampgamei386.so"))).1

/-- `REAL_LIB` -/
def realLib : Bytes := lit "./japlus_real_i386.so"

/-- `REAL_LIB_FALLBACK` -/
def realLibFallback : Bytes := lit "./jampgamei386.so"

def loadReal (s : Wrapper) : Wrapper :=
  if s.real.isSome then s
  else
    let env := (l.env.map CStr.bytes).getD []
    let s := if env ≠ [] then (s.tryAdoptReal own l env).1 else s
    let s := if s.real.isNone then s.tryAdoptRealNextToSelf own l else s
    let s := if s.real.isNone then (s.tryAdoptReal own l realLib).1 else s
    let s := if s.real.isNone then (s.tryAdoptReal own l realLibFallback).1 else s
    match s.real with
    | none => s.note .unfound
    | some h =>
      if s.patchesDone then s
      else
        let process := { l.process with realHandle := h, vmMain := l.dlsym h (lit "vmMain") }
        { s with patchesDone := true, hooks := process.installPatches Hooks.hde32 s.hooks }.note (.installed h)

def dllEntry (s : Wrapper) (engine : Addr) : Wrapper :=
  let s := { s with engine := engine }.loadReal own l
  if s.realDllEntry ≠ 0 then s.note (.initialised s.realDllEntry) else s.note .noDllEntry

/-- vmMain, with what LoadReal does first. -/
def enterVmMain (s : Wrapper) (e : Engine) (call : GameCall) : Option (Wrapper × Engine) :=
  let s := s.loadReal own l
  let s := if s.realVmMain = 0 then s.note .noVmMain else s
  (vmMain (s.realVmMain ≠ 0) e call).map fun passage =>
    match passage.answer with
    | none => (s.note (.entered s.realVmMain call), passage.engine)
    | some r => (s.note (.answered call r), passage.engine)

end

/-- The engine's calls, each with what the loader answers at that time. -/
inductive Entry where
  | dllEntry (l : Loader) (engine : Addr)
  | vmMain (l : Loader) (e : Engine) (call : GameCall)

def step (own : Addr) (s : Wrapper) : Entry → Option Wrapper
  | .dllEntry l engine => some (s.dllEntry own l engine)
  | .vmMain l e call => (s.enterVmMain own l e call).map Prod.fst

/-- A process that has just loaded the wrapper. -/
def boot (hooks : Hooks.State) : Wrapper where
  hooks := hooks

end Wrapper

/-- The wrapper, and the engine that it serves. -/
structure World where
  wrapper : Wrapper
  engine : Engine

/-- The events of a session, with the loader's answers to the entries. -/
inductive Happening where
  | dllEntry (l : Loader) (engine : Addr)
  | vmMain (l : Loader) (call : GameCall)
  | userinfo (client : Int) (ui : CStr)
  | turn (world : Engine)
  | syscall (call : Syscall)

def World.step (own : Addr) (w : World) : Happening → Option World
  | .dllEntry l engine => some { w with wrapper := w.wrapper.dllEntry own l engine }
  | .vmMain l call => (w.wrapper.enterVmMain own l w.engine call).map fun (s, e) => ⟨s, e⟩
  | .userinfo client ui =>
    some { w with engine := { w.engine with userinfo := Function.update w.engine.userinfo client ui } }
  | .turn world => some { w with engine := { world with userinfo := w.engine.userinfo } }
  | .syscall call => some { w with engine := (proxySyscall w.engine call).engine }

end JaplusProxy.Boundary
