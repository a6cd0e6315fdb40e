import JaplusProxy.Hooks.Plant

/-! The length disassembler of hde32.c, with its table. A read of code or of the table
may fail; `none` is a read that did. -/
namespace JaplusProxy.Hooks
open CString ByteMemory X86Jump

/-! ### table32.h -/

def cModrm : UInt8 := 0x01
def cImm8 : UInt8 := 0x02
def cImm16 : UInt8 := 0x04
def cImmP66 : UInt8 := 0x10
def cRel8 : UInt8 := 0x20
def cRel32 : UInt8 := 0x40
def cGroup : UInt8 := 0x80
def cError : UInt8 := 0xff

def preNone : UInt8 := 0x01
def preF2 : UInt8 := 0x02
def preF3 : UInt8 := 0x04
def pre66 : UInt8 := 0x08
def pre67 : UInt8 := 0x10
def preLock : UInt8 := 0x20
def preSeg : UInt8 := 0x40

def deltaOpcodes : Nat := 0x4a
def deltaFpuReg : Nat := 0xf1
def deltaFpuModrm : Nat := 0xf8
def deltaPrefixes : Nat := 0x130
def deltaOpLockOk : Nat := 0x1a1
def deltaOp2LockOk : Nat := 0x1b9
def deltaOpOnlyMem : Nat := 0x1cb
def deltaOp2OnlyMem : Nat := 0x1da

def hde32Table : List UInt8 := [
  0xa3, 0xa8, 0xa3, 0xa8, 0xa3, 0xa8, 0xa3, 0xa8, 0xa3, 0xa8, 0xa3, 0xa8, 0xa3, 0xa8, 0xa3, 0xa8, 0xaa, 0xaa,
  0xaa, 0xaa, 0xaa, 0xaa, 0xaa, 0xaa, 0xac, 0xaa, 0xb2, 0xaa, 0x9f, 0x9f, 0x9f, 0x9f, 0xb5, 0xa3, 0xa3, 0xa4,
  0xaa, 0xaa, 0xba, 0xaa, 0x96, 0xaa, 0xa8, 0xaa, 0xc3, 0xc3, 0x96, 0x96, 0xb7, 0xae, 0xd6, 0xbd, 0xa3, 0xc5,
  0xa3, 0xa3, 0x9f, 0xc3, 0x9c, 0xaa, 0xaa, 0xac, 0xaa, 0xbf, 0x03, 0x7f, 0x11, 0x7f, 0x01, 0x7f, 0x01, 0x3f,
  0x01, 0x01, 0x90, 0x82, 0x7d, 0x97, 0x59, 0x59, 0x59, 0x59, 0x59, 0x7f, 0x59, 0x59, 0x60, 0x7d, 0x7f, 0x7f,
  0x59, 0x59, 0x59, 0x59, 0x59, 0x59, 0x59, 0x59, 0x59, 0x59, 0x59, 0x59, 0x9a, 0x88, 0x7d, 0x59, 0x50, 0x50,
  0x50, 0x50, 0x59, 0x59, 0x59, 0x59, 0x61, 0x94, 0x61, 0x9e, 0x59, 0x59, 0x85, 0x59, 0x92, 0xa3, 0x60, 0x60,
  0x59, 0x59, 0x59, 0x59, 0x59, 0x59, 0x59, 0x59, 0x59, 0x59, 0x59, 0x9f, 0x01, 0x03, 0x01, 0x04, 0x03, 0xd5,
  0x03, 0xcc, 0x01, 0xbc, 0x03, 0xf0, 0x10, 0x10, 0x10, 0x10, 0x50, 0x50, 0x50, 0x50, 0x14, 0x20, 0x20, 0x20,
  0x20, 0x01, 0x01, 0x01, 0x01, 0xc4, 0x02, 0x10, 0x00, 0x00, 0x00, 0x00, 0x01, 0x01, 0xc0, 0xc2, 0x10, 0x11,
  0x02, 0x03, 0x11, 0x03, 0x03, 0x04, 0x00, 0x00, 0x14, 0x00, 0x02, 0x00, 0x00, 0xc6, 0xc8, 0x02, 0x02, 0x02,
  0x02, 0x00, 0x00, 0xff, 0xff, 0xff, 0xff, 0x00, 0x00, 0x00, 0xff, 0xca, 0x01, 0x01, 0x01, 0x00, 0x06, 0x00,
  0x04, 0x00, 0xc0, 0xc2, 0x01, 0x01, 0x03, 0x01, 0xff, 0xff, 0x01, 0x00, 0x03, 0xc4, 0xc4, 0xc6, 0x03, 0x01,
  0x01, 0x01, 0xff, 0x03, 0x03, 0x03, 0xc8, 0x40, 0x00, 0x0a, 0x00, 0x04, 0x00, 0x00, 0x00, 0x00, 0x7f, 0x00,
  0x33, 0x01, 0x00, 0x00, 0x00, 0x00, 0x00, 0x00, 0xff, 0xbf, 0xff, 0xff, 0x00, 0x00, 0x00, 0x00, 0x07, 0x00,
  0x00, 0xff, 0x00, 0x00, 0x00, 0x00, 0x00, 0x00, 0x00, 0x00, 0x00, 0x00, 0x00, 0x00, 0x00, 0x00, 0xff, 0xff,
  0x00, 0x00, 0x00, 0xbf, 0x00, 0x00, 0x00, 0x00, 0x00, 0x00, 0x00, 0x00, 0x7f, 0x00, 0x00, 0xff, 0x4a, 0x4a,
  0x4a, 0x4a, 0x4b, 0x52, 0x4a, 0x4a, 0x4a, 0x4a, 0x4f, 0x4c, 0x4a, 0x4a, 0x4a, 0x4a, 0x4a, 0x4a, 0x4a, 0x4a,
  0x55, 0x45, 0x40, 0x4a, 0x4a, 0x4a, 0x45, 0x59, 0x4d, 0x46, 0x4a, 0x5d, 0x4a, 0x4a, 0x4a, 0x4a, 0x4a, 0x4a,
  0x4a, 0x4a, 0x4a, 0x4a, 0x4a, 0x4a, 0x4a, 0x4a, 0x61, 0x63, 0x67, 0x4e, 0x4a, 0x4a, 0x6b, 0x6d, 0x4a, 0x4a,
  0x45, 0x6d, 0x4a, 0x4a, 0x44, 0x45, 0x4a, 0x4a, 0x00, 0x00, 0x00, 0x02, 0x0d, 0x06, 0x06, 0x06, 0x06, 0x0e,
  0x00, 0x00, 0x00, 0x00, 0x06, 0x06, 0x06, 0x00, 0x06, 0x06, 0x02, 0x06, 0x00, 0x0a, 0x0a, 0x07, 0x07, 0x06,
  0x02, 0x05, 0x05, 0x02, 0x02, 0x00, 0x00, 0x04, 0x04, 0x04, 0x04, 0x00, 0x00, 0x00, 0x0e, 0x05, 0x06, 0x06,
  0x06, 0x01, 0x06, 0x00, 0x00, 0x08, 0x00, 0x10, 0x00, 0x18, 0x00, 0x20, 0x00, 0x28, 0x00, 0x30, 0x00, 0x80,
  0x01, 0x82, 0x01, 0x86, 0x00, 0xf6, 0xcf, 0xfe, 0x3f, 0xab, 0x00, 0xb0, 0x00, 0xb1, 0x00, 0xb3, 0x00, 0xba,
  0xf8, 0xbb, 0x00, 0xc0, 0x00, 0xc1, 0x00, 0xc7, 0xbf, 0x62, 0xff, 0x00, 0x8d, 0xff, 0x00, 0xc4, 0xff, 0x00,
  0xc5, 0xff, 0x00, 0xff, 0xff, 0xeb, 0x01, 0xff, 0x0e, 0x12, 0x08, 0x00, 0x13, 0x09, 0x00, 0x16, 0x08, 0x00,
  0x17, 0x09, 0x00, 0x2b, 0x09, 0x00, 0xae, 0xff, 0x07, 0xb2, 0xff, 0x00, 0xb4, 0xff, 0x00, 0xb5, 0xff, 0x00,
  0xc3, 0x01, 0x00, 0xc7, 0xff, 0xbf, 0xe7, 0x08, 0x00, 0xf0, 0x02, 0x00]

/-! ### hde32.h -/

def fModrm : BitVec 32 := 0x00000001
def fSib : BitVec 32 := 0x00000002
def fImm8 : BitVec 32 := 0x00000004
def fImm16 : BitVec 32 := 0x00000008
def fImm32 : BitVec 32 := 0x00000010
def fDisp8 : BitVec 32 := 0x00000020
def fDisp16 : BitVec 32 := 0x00000040
def fDisp32 : BitVec 32 := 0x00000080
def fRelative : BitVec 32 := 0x00000100
def f2Imm16 : BitVec 32 := 0x00000800
def fError : BitVec 32 := 0x00001000
def fErrorOpcode : BitVec 32 := 0x00002000
def fErrorLength : BitVec 32 := 0x00004000
def fErrorLock : BitVec 32 := 0x00008000
def fErrorOperand : BitVec 32 := 0x00010000

/-- `struct hde32s`. The unions are their four bytes. -/
structure Hde32s where
  len : UInt8 := 0
  pRep : UInt8 := 0
  pLock : UInt8 := 0
  pSeg : UInt8 := 0
  p66 : UInt8 := 0
  p67 : UInt8 := 0
  opcode : UInt8 := 0
  opcode2 : UInt8 := 0
  modrm : UInt8 := 0
  modrmMod : UInt8 := 0
  modrmReg : UInt8 := 0
  modrmRm : UInt8 := 0
  sib : UInt8 := 0
  sibScale : UInt8 := 0
  sibIndex : UInt8 := 0
  sibBase : UInt8 := 0
  imm : Bytes := [0, 0, 0, 0]
  disp : Bytes := [0, 0, 0, 0]
  flags : BitVec 32 := 0
  deriving DecidableEq

/-- F_ERROR and its reason, where a check fails. -/
def Hde32s.fail (hs : Hde32s) (reason : BitVec 32) (failed : Bool) : Hde32s :=
  if failed then { hs with flags := hs.flags ||| (fError ||| reason) } else hs

/-- A member of a union is assigned. -/
def store (union bytes : Bytes) : Bytes := bytes ++ union.drop bytes.length

/-! ### hde32.c -/

/-- The bytes from the address to disassemble. -/
abbrev Code := Nat → Option UInt8

def fetch (code : Code) (p : Nat) : Nat → Option Bytes
  | 0 => some []
  | k + 1 => do return (← code p) :: (← fetch code (p + 1) k)

/-- The variables of `hde32_disasm`; `c` is `opcode` once the prefixes are done. -/
structure Cursor where
  hs : Hde32s := {}
  p : Nat := 0
  c : UInt8 := 0
  pref : UInt8 := 0
  ht : Nat := 0
  cflags : UInt8 := 0
  x : UInt8 := 0
  deriving DecidableEq

namespace Cursor

/-- The cases of the prefix loop. -/
def takePrefix (s : Cursor) : Option Cursor :=
  let c := s.c
  if c = 0xf3 then some { s with hs := { s.hs with pRep := c }, pref := s.pref ||| preF3 }
  else if c = 0xf2 then some { s with hs := { s.hs with pRep := c }, pref := s.pref ||| preF2 }
  else if c = 0xf0 then some { s with hs := { s.hs with pLock := c }, pref := s.pref ||| preLock }
  else if c = 0x26 ∨ c = 0x2e ∨ c = 0x36 ∨ c = 0x3e ∨ c = 0x64 ∨ c = 0x65 then
    some { s with hs := { s.hs with pSeg := c }, pref := s.pref ||| preSeg }
  else if c = 0x66 then some { s with hs := { s.hs with p66 := c }, pref := s.pref ||| pre66 }
  else if c = 0x67 then some { s with hs := { s.hs with p67 := c }, pref := s.pref ||| pre67 }
  else none

def prefixes (code : Code) : Nat → Cursor → Option Cursor
  | 0, s => some s
  | x + 1, s => do
    let s := { s with c := ← code s.p, p := s.p + 1 }
    match s.takePrefix with
    | some s => prefixes code x s
    | none => some s

def opcode (code : Code) (s : Cursor) : Option Cursor := do
  let hs := { s.hs with flags := s.pref.toBitVec.setWidth 32 <<< 23, opcode := s.c }
  let pref := if s.pref = 0 then preNone else s.pref
  if s.c = 0x0f then
    let c ← code s.p
    some { s with hs := { hs with opcode2 := c }, p := s.p + 1, c := c, pref := pref, ht := deltaOpcodes }
  else if 0xa0 ≤ s.c ∧ s.c ≤ 0xa3 then
    some { s with hs := hs, pref := if pref &&& pre67 ≠ 0 then pref ||| pre66 else pref &&& ~~~pre66 }
  else some { s with hs := hs, pref := pref }

/-- `ht[ht[opcode / 4] + (opcode % 4)]` -/
def entry (ht : Nat) (opcode : UInt8) : Option UInt8 := do
  let row ← hde32Table[ht + (opcode / 4).toNat]?
  hde32Table[ht + row.toNat + (opcode % 4).toNat]?

/-- The control flags of an opcode, what its group says of `reg`, and whether it is undefined. -/
def lookup (ht : Nat) (opcode : UInt8) : Option (UInt8 × UInt8 × Bool) := do
  let cflags ← entry ht opcode
  if cflags = cError then return (if opcode &&& 0xfd = 0x24 then 1 else 0, 0, true)
  else if cflags &&& cGroup ≠ 0 then
    let t := ht + (cflags &&& 0x7f).toNat
    return (← hde32Table[t]?, ← hde32Table[t + 1]?, false)
  else return (cflags, 0, false)

def control (s : Cursor) : Option Cursor := do
  let (cflags, x, undefined) ← lookup s.ht s.c
  some { s with hs := s.hs.fail fErrorOpcode undefined, cflags := cflags, x := x }

def checkPrefixes (s : Cursor) : Option Cursor := do
  if s.hs.opcode2 ≠ 0 then
    let mask ← entry deltaPrefixes s.c
    some { s with hs := s.hs.fail fErrorOpcode (mask &&& s.pref ≠ 0) }
  else some s

/-! ### The ModR/M byte -/

/-- Bit `7 - i` of a row of the table. -/
def rowBit (row i : UInt8) : Bool := (row <<< i) &&& 0x80 ≠ 0

/-- An x87 opcode that has no instruction there. -/
def fpuError (hs : Hde32s) (opcode : UInt8) : Option Bool := do
  if hs.opcode2 = 0 ∧ 0xd9 ≤ opcode ∧ opcode ≤ 0xdf then
    let t := (opcode - 0xd9).toNat
    if hs.modrmMod = 3 then return rowBit (← hde32Table[deltaFpuModrm + t * 8 + hs.modrmReg.toNat]?) hs.modrmRm
    else return rowBit (← hde32Table[deltaFpuReg + t]?) hs.modrmReg
  else return false

/-- The loop over the opcodes that take a lock; it ends at `no_lock_error` or not. -/
def lockLoop (op reg : UInt8) (tableEnd : Nat) : Nat → Nat → Option Bool
  | 0, _ => none
  | fuel + 1, ht =>
    if ht = tableEnd then some false
    else do
      if (← hde32Table[ht]?) = op then return !rowBit (← hde32Table[ht + 1]?) reg
      else lockLoop op reg tableEnd fuel (ht + 2)

def lockError (hs : Hde32s) (opcode pref : UInt8) : Option Bool := do
  if pref &&& preLock = 0 then return false
  else if hs.modrmMod = 3 then return true
  else if hs.opcode2 ≠ 0 then
    return !(← lockLoop opcode hs.modrmReg deltaOpOnlyMem hde32Table.length deltaOp2LockOk)
  else return !(← lockLoop (opcode &&& 0xfe) hs.modrmReg deltaOp2LockOk hde32Table.length deltaOpLockOk)

/-- The loop over the opcodes whose operand is in memory. -/
def memLoop (opcode pref reg : UInt8) (tableEnd : Nat) : Nat → Nat → Option Bool
  | 0, _ => none
  | fuel + 1, ht =>
    if ht = tableEnd then some false
    else do
      if (← hde32Table[ht]?) = opcode then
        if (← hde32Table[ht + 1]?) &&& pref ≠ 0 then return !rowBit (← hde32Table[ht + 2]?) reg
        else return false
      else memLoop opcode pref reg tableEnd fuel (ht + 3)

/-- What `m_mod` is from there on, and whether it goes to `error_operand`. -/
def operandError (hs : Hde32s) (opcode pref : UInt8) : Option (UInt8 × Bool) := do
  let mod := hs.modrmMod
  let reg := hs.modrmReg
  if hs.opcode2 ≠ 0 then
    if opcode = 0x20 ∨ opcode = 0x22 then return (3, 4 < reg ∨ reg = 1)
    else if opcode = 0x21 ∨ opcode = 0x23 then return (3, reg = 4 ∨ reg = 5)
    else if mod = 3 then return (mod, ← memLoop opcode pref reg hde32Table.length hde32Table.length deltaOp2OnlyMem)
    else if opcode = 0x50 ∨ opcode = 0xd7 ∨ opcode = 0xf7 then return (mod, pref &&& (preNone ||| pre66) ≠ 0)
    else if opcode = 0xd6 then return (mod, pref &&& (preF2 ||| preF3) ≠ 0)
    else return (mod, opcode = 0xc5)
  else if opcode = 0x8c then return (mod, 5 < reg)
  else if opcode = 0x8e then return (mod, reg = 1 ∨ 5 < reg)
  else if mod = 3 then return (mod, ← memLoop opcode pref reg deltaOp2OnlyMem hde32Table.length deltaOpOnlyMem)
  else return (mod, false)

def dispSize (pref mod rm : UInt8) : Nat :=
  if mod = 0 then if pref &&& pre67 ≠ 0 then if rm = 6 then 2 else 0 else if rm = 5 then 4 else 0
  else if mod = 1 then 1
  else if mod = 2 then if pref &&& pre67 = 0 then 4 else 2
  else 0

def dispFlag (size : Nat) : BitVec 32 :=
  if size = 1 then fDisp8 else if size = 2 then fDisp16 else if size = 4 then fDisp32 else 0

/-- `*p` is assigned to a member of `disp`. -/
def storeDisp (code : Code) (s : Cursor) (size : Nat) (flags : BitVec 32) : Option Cursor := do
  let bytes ← fetch code s.p size
  some { s with hs := { s.hs with flags := s.hs.flags ||| flags, disp := store s.hs.disp bytes }, p := s.p + size }

/-- TEST is the form of the groups F6 and F7 that has an immediate. -/
def testFlags (s : Cursor) : UInt8 :=
  if s.hs.modrmReg ≤ 1 then
    if s.c = 0xf6 then s.cflags ||| cImm8 else if s.c = 0xf7 then s.cflags ||| cImmP66 else s.cflags
  else s.cflags

/-- Behind the operand checks: one byte is read ahead, and is the SIB byte or is given back. -/
def address (code : Code) (s : Cursor) (mod : UInt8) : Option Cursor := do
  let c ← code s.p
  let rm := s.hs.modrmRm
  let s := { s with cflags := testFlags s }
  let size := dispSize s.pref mod rm
  if mod ≠ 3 ∧ rm = 4 ∧ s.pref &&& pre67 = 0 then
    let hs : Hde32s := { s.hs with
      flags := s.hs.flags ||| fSib, sib := c, sibScale := c >>> 6, sibIndex := (c &&& 0x3f) >>> 3, sibBase := c &&& 7 }
    let size := if hs.sibBase = 5 ∧ mod &&& 1 = 0 then 4 else size
    storeDisp code { s with hs := hs, p := s.p + 1 } size (dispFlag size)
  else storeDisp code s size (dispFlag size)

/-- The fields of the byte. -/
def withModrm (hs : Hde32s) (c : UInt8) : Hde32s :=
  { hs with
    flags := hs.flags ||| fModrm, modrm := c, modrmMod := c >>> 6, modrmRm := c &&& 7, modrmReg := (c &&& 0x3f) >>> 3 }

/-- What is `m_mod` from there on, and the fields, with what the checks on them say. -/
def checkModrm (s : Cursor) (c : UInt8) : Option (UInt8 × Hde32s) := do
  let hs := withModrm s.hs c
  let hs := hs.fail fErrorOpcode (rowBit s.x hs.modrmReg)
  let hs := hs.fail fErrorOpcode (← fpuError hs s.c)
  let hs := hs.fail fErrorLock (← lockError hs s.c s.pref)
  let (mod, failed) ← operandError hs s.c s.pref
  return (mod, hs.fail fErrorOperand failed)

def modrm (code : Code) (s : Cursor) : Option Cursor := do
  let (mod, hs) ← checkModrm s (← code s.p)
  address code { s with hs := hs, p := s.p + 1 } mod

def operand (code : Code) (s : Cursor) : Option Cursor :=
  if s.cflags &&& cModrm ≠ 0 then modrm code s
  else some { s with hs := s.hs.fail fErrorLock (s.pref &&& preLock ≠ 0) }

/-! ### Immediates -/

/-- `*p` is assigned to a member of `imm`. -/
def storeImm (code : Code) (s : Cursor) (size : Nat) (flags : BitVec 32) : Option Cursor := do
  let bytes ← fetch code s.p size
  some { s with hs := { s.hs with flags := s.hs.flags ||| flags, imm := store s.hs.imm bytes }, p := s.p + size }

def immP66 (code : Code) (s : Cursor) : Option Cursor :=
  if s.cflags &&& cImmP66 = 0 then some s
  else if s.pref &&& pre66 ≠ 0 then storeImm code s 2 fImm16
  else storeImm code s 4 fImm32

def imm16 (code : Code) (s : Cursor) : Option Cursor :=
  if s.cflags &&& cImm16 = 0 then some s
  else if s.hs.flags &&& fImm32 ≠ 0 then storeDisp code s 2 fImm16
  else if s.hs.flags &&& fImm16 ≠ 0 then storeDisp code s 2 f2Imm16
  else storeImm code s 2 fImm16

def imm8 (code : Code) (s : Cursor) : Option Cursor :=
  if s.cflags &&& cImm8 = 0 then some s else storeImm code s 1 fImm8

def relative (code : Code) (s : Cursor) : Option Cursor :=
  if s.cflags &&& cRel32 ≠ 0 then storeImm code s 4 (fImm32 ||| fRelative)
  else if s.cflags &&& cRel8 ≠ 0 then storeImm code s 1 (fImm8 ||| fRelative)
  else some s

def immediates (code : Code) (s : Cursor) : Option Cursor :=
  if s.cflags &&& cImmP66 ≠ 0 ∧ s.cflags &&& cRel32 ≠ 0 then
    if s.pref &&& pre66 ≠ 0 then storeImm code s 2 (fImm16 ||| fRelative)
    else storeImm code s 4 (fImm32 ||| fRelative)
  else do relative code (← imm8 code (← imm16 code (← immP66 code s)))

/-- `disasm_done` -/
def done (s : Cursor) : Hde32s :=
  let len := UInt8.ofNat s.p
  if 15 < len then { s.hs.fail fErrorLength true with len := 15 } else { s.hs with len := len }

end Cursor

open Cursor in
def hde32Disasm (code : Code) : Option Hde32s := do
  let s ← opcode code (← prefixes code 16 {})
  let s ← checkPrefixes (← control s)
  let s ← immediates code (← operand code s)
  some s.done

/-- The code of a process. -/
def codeAt (image : Image 32) (addr : Addr) : Code := fun i => some (image (addr + BitVec.ofNat 32 i))

/-- What HookLenOk takes from the disassembler. -/
def hde32 : Disasm := fun image addr =>
  match hde32Disasm (codeAt image addr) with
  | some hs => ⟨hs.len.toNat, hs.flags &&& fError ≠ 0⟩
  | none => ⟨0, true⟩

end JaplusProxy.Hooks
