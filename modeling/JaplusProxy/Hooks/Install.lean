import JaplusProxy.Hooks.Plant

/-! InstallPatches: where each hook goes, what must be found there first, and the
four hooks in their order. -/
namespace JaplusProxy.Hooks
open CString ByteMemory X86Jump

/-! ### The game module -/

/-- `japlus_target_t` -/
structure Target where
  name : CStr
  vaddr : Addr
  expect : Bytes
  expectLen : Nat
  prefixLen : Nat

def gTargets : List Target := [
  { name := ⟨lit "BG_SiegeFindClassByName", by decide⟩, vaddr := 0x10DB34
    expect := [0x57, 0x56, 0x53, 0x8B, 0x15, 0x00], expectLen := 5, prefixLen := 9 },
  { name := ⟨lit "ClientSpawn", by decide⟩, vaddr := 0x122DD4
    expect := [0x57, 0x56, 0x55, 0x53, 0x81, 0xEC], expectLen := 6, prefixLen := 0 },
  { name := ⟨lit "ClientCommand", by decide⟩, vaddr := 0x1B2E06
    expect := [0x57, 0x56, 0x55, 0x53, 0x81, 0xEC], expectLen := 6, prefixLen := 0 },
  { name := ⟨lit "ClientUserinfoChanged", by decide⟩, vaddr := 0x11F8FE
    expect := [0x57, 0x56, 0x55, 0x53, 0x81, 0xEC], expectLen := 6, prefixLen := 0 },
  { name := ⟨lit "SetTeam", by decide⟩, vaddr := 0x19F338
    expect := [0x57, 0x56, 0x55, 0x53, 0x81, 0xEC], expectLen := 6, prefixLen := 0 },
  { name := ⟨lit "Cmd_SiegeClass_f", by decide⟩, vaddr := 0x1A041A
    expect := [0x57, 0x56, 0x55, 0x53, 0x83, 0xEC], expectLen := 6, prefixLen := 0 },
  { name := ⟨lit "G_ParseSpawnVars", by decide⟩, vaddr := 0x14E4A2
    expect := [0x55, 0x81, 0xEC, 0x00, 0x08, 0x00], expectLen := 6, prefixLen := 0 },
  { name := ⟨lit "Cmd_amvstr_f", by decide⟩, vaddr := 0x1AA4BC
    expect := [0x81, 0xEC, 0x00, 0x08, 0x00, 0x00], expectLen := 6, prefixLen := 0 },
  { name := ⟨lit "Cmd_amlogin_f", by decide⟩, vaddr := 0x1A470A
    expect := [0x55, 0x81, 0xEC, 0x00, 0x08, 0x00], expectLen := 6, prefixLen := 0 },
  { name := ⟨lit "Cmd_ammap_f", by decide⟩, vaddr := 0x1A5A56
    expect := [0x57, 0x56, 0x53, 0x81, 0xEC, 0x00], expectLen := 6, prefixLen := 0 }]

def findTarget (name : CStr) : Option Target := gTargets.find? (·.name = name)

/-- `memcmp(addr, expect, n) == 0` -/
def matchesAt (image : Image 32) (addr : Addr) (expect : Bytes) : Bool :=
  image.read addr expect.length = expect

/-- NULL is address 0. -/
def resolveTarget (s : State) (base : Addr) (t : Target) : State × Addr :=
  let addr := base + t.vaddr
  let n := if t.expectLen ≤ 6 then t.expectLen else 6
  if n = 0 ∨ ¬ matchesAt s.memory.image addr (t.expect.take n) then (s.print (.targetMismatch t.name addr), 0)
  else (s, addr)

/-! ### The engine -/

def engineBase : Addr := 0x08048000

/-- The first place of the scan where the anchor stands whole. -/
def anchorScan (image : Image 32) (addr : Addr) (anchor : BitVec 32) (scan : Nat) : Option Nat :=
  (List.range (scan - 3)).find? fun i => dwordAt image (addr + BitVec.ofNat 32 i) = anchor

def resolveEngineAbs (s : State) (name : CStr) (off : Addr) (expect : Bytes) (anchor : BitVec 32) (scan : Nat) :
    State × Addr :=
  let addr := engineBase + off
  if expect.length = 0 ∨ 8 < expect.length ∨ ¬ matchesAt s.memory.image addr expect then
    (s.print (.engineMismatch name addr), 0)
  else
    match anchorScan s.memory.image addr anchor scan with
    | none => (s.print (.anchorMissing name addr), 0)
    | some _ => (s, addr)

theorem connless_nulFree : 0 ∉ lit "SV_ConnectionlessPacket" := by
  decide

theorem rcon_nulFree : 0 ∉ lit "SVC_RemoteCommand" := by
  decide

def siegeName : CStr := ⟨lit "BG_SiegeFindClassByName", by decide⟩
def connlessName : CStr := ⟨lit "SV_ConnectionlessPacket", connless_nulFree⟩
def donedlName : CStr := ⟨lit "SV_DoneDownload_f", by decide⟩
def rconName : CStr := ⟨lit "SVC_RemoteCommand", rcon_nulFree⟩

def resolveEngineConnless (s : State) : State × Addr :=
  resolveEngineAbs s connlessName 0xED64 [0x55, 0x8B, 0xEC, 0x83, 0xEC, 0x20] 0x0819D654 0x400

def resolveEngineDonedl (s : State) : State × Addr :=
  resolveEngineAbs s donedlName 0x6AA4 [0x55, 0x8B, 0xEC, 0x83, 0xEC, 0x10] 0x0819B5B8 0x100

def resolveEngineRcon (s : State) : State × Addr :=
  resolveEngineAbs s rconName 0xEB14 [0x55, 0x8B, 0xEC, 0x81, 0xEC, 0x20] 0x0819D5B0 0x400

/-! ### InstallPatches -/

/-- Where the loader put things, the settings, and how the system answers the calls
made for each hook. -/
structure Process where
  /-- `dlsym(real_handle, "vmMain")` -/
  vmMain : Addr
  realHandle : Addr
  moduleBase : Addr → Addr
  /-- `JAPLUS_NO_HOOKS` and `JAPLUS_NO_OOB` are set -/
  noHooks : Bool
  noOob : Bool
  detour : Tramp → Addr
  kernel : Tramp → Kernel

namespace Process
variable (p : Process)

def base : Addr := p.moduleBase (if p.vmMain = 0 then p.realHandle else p.vmMain)

/-- PlantHook at a resolved address. -/
def plant (disasm : Disasm) (tramp : Tramp) (name : CStr) (prefixLen : Nat) (resolved : State × Addr) : State :=
  plantHook disasm (p.kernel tramp) resolved.1
    { name := name, addr := resolved.2, prefixLen := prefixLen, detour := p.detour tramp, tramp := tramp }

def verifyTarget (s : State) (t : Target) : State :=
  let (s, addr) := resolveTarget s p.base t
  s.print (.target t.name (addr ≠ 0))

def installSiege (disasm : Disasm) (s : State) : State :=
  match findTarget siegeName with
  | none => p.plant disasm .siegeFind siegeName 0 (s, 0)
  | some t => p.plant disasm .siegeFind t.name t.prefixLen (resolveTarget s p.base t)

def installConnless (disasm : Disasm) (s : State) : State :=
  if p.noOob then s.print .oobDisabled
  else p.plant disasm .connless connlessName 6 (resolveEngineConnless s)

def installDonedl (disasm : Disasm) (s : State) : State :=
  p.plant disasm .donedl donedlName 6 (resolveEngineDonedl s)

def installRcon (disasm : Disasm) (s : State) : State :=
  p.plant disasm .rcon rconName 9 (resolveEngineRcon s)

def installPatches (disasm : Disasm) (s : State) : State :=
  let s := s.print (.realBase p.base p.vmMain)
  if p.base = 0 then s
  else
    let s := gTargets.foldl p.verifyTarget s
    if p.noHooks then s.print .hooksDisabled
    else
      let s := p.installSiege disasm s
      let s := p.installConnless disasm s
      let s := p.installDonedl disasm s
      let s := p.installRcon disasm s
      s.print (.protections s.hookOk s.hookTry)

end Process

end JaplusProxy.Hooks
