import JaplusProxy.CInt
import JaplusProxy.CString
import JaplusProxy.X86Jump
import Mathlib.Logic.Function.Basic

/-! The hook writers of patch.c and the inventory of planted hooks. Addresses and
`intptr_t` have 32 bits, and address 0 is NULL. -/
namespace JaplusProxy.Hooks
open CInt CString ByteMemory X86Jump

/-- How the system calls of one step answer. -/
structure Kernel where
  /-- `sysconf(_SC_PAGESIZE)` -/
  pageSize : Int
  mprotect : Addr → Addr → Bool
  /-- A fresh mapping of that many bytes, or MAP_FAILED. -/
  mmap : Nat → Option Addr

/-- The trampoline variables. -/
inductive Tramp where
  | siegeFind | connless | donedl | rcon
  deriving DecidableEq

/-- What the hook writers write to. -/
structure Memory where
  image : Image 32
  tramps : Tramp → Addr

def makeWritable (k : Kernel) (addr : Addr) (len : Nat) : Bool :=
  let ps : Addr := BitVec.ofInt 32 (if k.pageSize ≤ 0 then 4096 else k.pageSize)
  let start := addr &&& ~~~(ps - 1)
  let stop := (addr + BitVec.ofNat 32 len + (ps - 1)) &&& ~~~(ps - 1)
  k.mprotect start (stop - start)

def patchBytes (k : Kernel) (image : Image 32) (dst : Addr) (src : Bytes) : Image 32 × Int :=
  if dst = 0 ∨ src = [] ∨ ¬ makeWritable k dst src.length then (image, -1) else (image.write dst src, 0)

/-! ### The writers -/

/-- HookJumpN and HookJumpAbs: the prefix and the jump `back` go to a fresh mapping,
the jump `out` over the target. A mapping that is unmapped again leaves nothing. -/
def hookJump (k : Kernel) (m : Memory) (target detour : Addr) (prefixLen : Nat) (outTramp : Tramp)
    (out : Bytes) (backLen : Nat) (back : Addr → Bytes) : Memory × Int :=
  if target = 0 ∨ detour = 0 ∨ prefixLen < out.length ∨ 64 < prefixLen then (m, -1)
  else
    match k.mmap (prefixLen + backLen) with
    | none => (m, -1)
    | some tr =>
      let image := m.image.write tr (m.image.read target prefixLen ++ back tr)
      let (image, ret) := patchBytes k image target (out ++ nops (prefixLen - out.length))
      if ret = 0 then ({ image := image, tramps := Function.update m.tramps outTramp tr }, 0) else (m, -1)

def hookJumpN (k : Kernel) (m : Memory) (target detour : Addr) (prefixLen : Nat) (outTramp : Tramp) : Memory × Int :=
  hookJump k m target detour prefixLen outTramp (jumpRel target detour) 5
    fun tr => jumpRel (tr + BitVec.ofNat 32 prefixLen) (target + BitVec.ofNat 32 prefixLen)

def hookJumpAbs (k : Kernel) (m : Memory) (target detour : Addr) (prefixLen : Nat) (outTramp : Tramp) : Memory × Int :=
  hookJump k m target detour prefixLen outTramp (pushRet detour) 7
    fun _ => movJump (target + BitVec.ofNat 32 prefixLen)

def hookAuto (k : Kernel) (m : Memory) (target detour : Addr) (len : Nat) (outTramp : Tramp) : Memory × Int :=
  if target = 0 ∨ detour = 0 ∨ len = 0 ∨ 64 < len then (m, -1)
  else
    let rel := (detour - (target + 5)).toInt
    if 5 ≤ len ∧ rel = int32 rel then hookJumpN k m target detour len outTramp
    else if 6 ≤ len then hookJumpAbs k m target detour len outTramp
    else (m, -1)

/-! ### The length check -/

structure Insn where
  len : Nat
  /-- `hs.flags & F_ERROR` -/
  error : Bool

/-- `hde32_disasm` -/
abbrev Disasm := Image 32 → Addr → Insn

/-- The loop of HookLenOk, for `fuel` instructions at most. -/
def hookLen (disasm : Disasm) (image : Image 32) (addr : Addr) (want : Nat) : Nat → Nat → Bool
  | 0, n => n = want
  | fuel + 1, n =>
    if n < want then
      let l := disasm image (addr + BitVec.ofNat 32 n)
      if l.len = 0 ∨ l.error then false else hookLen disasm image addr want fuel (n + l.len)
    else n = want

def hookLenOk (disasm : Disasm) (image : Image 32) (addr : Addr) (want : Nat) : Bool :=
  if addr = 0 ∨ want = 0 ∨ 64 < want then false else hookLen disasm image addr want want 0

/-! ### The inventory -/

def maxPlanted : Nat := 8

/-- `planted_t` -/
structure Planted where
  name : CStr
  target : Addr
  orig : Bytes
  len : Nat
  aimed : target ≠ 0
  nonempty : len ≠ 0
  saved : orig.length = len
  fits : len ≤ 8

/-- One line on stderr. -/
inductive Line where
  | target (name : CStr) (verified : Bool)
  | lengthMismatch (name : CStr) (addr : Addr)
  | hooked (name : CStr) (addr tramp : Addr)
  | notArmed (name : CStr)
  | realBase (base vmMain : Addr)
  | targetMismatch (name : CStr) (addr : Addr)
  | engineMismatch (name : CStr) (addr : Addr)
  | anchorMissing (name : CStr) (addr : Addr)
  | hooksDisabled
  | oobDisabled
  | protections (hookOk hookTry : Nat)
  deriving DecidableEq

/-- `%p` -/
def pointer (a : Addr) : Bytes :=
  if a = 0 then lit "(nil)" else lit "0x" ++ (Nat.toDigits 16 a.toNat).map chr

/-- `%d` -/
def decimal (n : Nat) : Bytes := (Nat.toDigits 10 n).map chr

/-- U+2014 -/
def emDash : Bytes := [0xE2, 0x80, 0x94]

def Line.text : Line → Bytes
  | .target name verified =>
    lit "[japlus_proxy] target " ++ name.bytes ++ List.replicate (22 - name.bytes.length) (chr ' ') ++
      lit (if verified then " verified\n" else " SKIPPED\n")
  | .lengthMismatch name addr =>
    lit "[japlus_proxy] target " ++ name.bytes ++ lit "@" ++ pointer addr ++
      lit " length mismatch " ++ emDash ++ lit " hook skipped\n"
  | .hooked name addr tramp =>
    lit "[japlus_proxy] hooked " ++ name.bytes ++ lit "@" ++ pointer addr ++
      lit " tramp=" ++ pointer tramp ++ lit "\n"
  | .notArmed name => lit "[japlus_proxy] " ++ name.bytes ++ lit " hook not armed\n"
  | .realBase base vmMain =>
    lit "[japlus_proxy] real base=" ++ pointer base ++ lit " vmMain=" ++ pointer vmMain ++ lit "\n"
  | .targetMismatch name addr =>
    lit "[japlus_proxy] target " ++ name.bytes ++ lit "@" ++ pointer addr ++
      lit " byte mismatch " ++ emDash ++ lit " wrong JA+ build, hook skipped\n"
  | .engineMismatch name addr =>
    lit "[japlus_proxy] engine " ++ name.bytes ++ lit "@" ++ pointer addr ++
      lit " byte mismatch " ++ emDash ++ lit " wrong engine build, hook skipped\n"
  | .anchorMissing name addr =>
    lit "[japlus_proxy] engine " ++ name.bytes ++ lit "@" ++ pointer addr ++
      lit " anchor not found " ++ emDash ++ lit " hook skipped\n"
  | .hooksDisabled => lit "[japlus_proxy] inline hooks disabled by env\n"
  | .oobDisabled => lit "[japlus_proxy] OOB hook disabled by env\n"
  | .protections hookOk hookTry =>
    lit "[japlus_proxy] protections: filters=on hooks_armed=" ++ decimal hookOk ++ lit "/" ++ decimal hookTry ++ lit "\n"

structure State where
  memory : Memory
  planted : List Planted := []
  hookTry : Nat := 0
  hookOk : Nat := 0
  stderr : List Line := []

namespace State
variable (s : State)

def print (line : Line) : State := { s with stderr := s.stderr ++ [line] }

def trackHook (name : CStr) (target : Addr) (len : Nat) : State :=
  if full : maxPlanted ≤ s.planted.length ∨ target = 0 ∨ len = 0 ∨ 8 < len then s
  else
    { s with
      planted := s.planted ++ [{
        name := name, target := target, orig := s.memory.image.read target len, len := len
        aimed := fun zero => full (.inr (.inl zero))
        nonempty := fun zero => full (.inr (.inr (.inl zero)))
        saved := Image.length_read ..
        fits := Nat.not_lt.mp fun long => full (.inr (.inr (.inr long))) }] }

def removeHooks (k : Kernel) : State :=
  let image := s.planted.foldl (fun image p => (patchBytes k image p.target p.orig).1) s.memory.image
  { s with memory.image := image }

def hookArmed (name : CStr) (detour : Addr) : Bool :=
  match s.planted.find? (·.name = name) with
  | none => false
  | some p =>
    let t := p.target
    if s.memory.image t = 0xE9 then t + 5 + dwordAt s.memory.image (t + 1) = detour
    else if s.memory.image t = 0x68 ∧ s.memory.image (t + 5) = 0xC3 then dwordAt s.memory.image (t + 1) = detour
    else false

end State

/-! ### Planting -/

/-- The arguments of one PlantHook. -/
structure Call where
  name : CStr
  addr : Addr
  prefixLen : Nat
  detour : Addr
  tramp : Tramp

def plantHook (disasm : Disasm) (k : Kernel) (s : State) (c : Call) : State :=
  let s := s.print (.target c.name (c.addr ≠ 0))
  if c.addr = 0 then s
  else
    let s := { s with hookTry := s.hookTry + 1 }
    if ¬ hookLenOk disasm s.memory.image c.addr c.prefixLen then s.print (.lengthMismatch c.name c.addr)
    else
      let s := s.trackHook c.name c.addr c.prefixLen
      let (memory, ret) := hookAuto k s.memory c.addr c.detour c.prefixLen c.tramp
      let s := { s with memory := memory }
      if ret = 0 ∧ s.hookArmed c.name c.detour then
        { s with hookOk := s.hookOk + 1 }.print (.hooked c.name c.addr (s.memory.tramps c.tramp))
      else s.print (.notArmed c.name)

/-- A call and the system it meets. -/
structure Step where
  call : Call
  kernel : Kernel

def run (disasm : Disasm) (s : State) (steps : List Step) : State :=
  steps.foldl (fun s step => plantHook disasm step.kernel s step.call) s

end JaplusProxy.Hooks
