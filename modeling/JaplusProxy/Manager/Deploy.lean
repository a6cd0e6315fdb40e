import JaplusProxy.Machine

/-! ensure_proxy of japm.py on one library directory. A run may be cut off after any file
operation, and inside a write. -/
namespace JaplusProxy.Manager
open Machine

abbrev Content := List UInt8

/-- `jampgamei386.so` and `japlus_real_i386.so`, where they exist. -/
structure LibDir where
  stock : Option Content
  real : Option Content
  deriving DecidableEq

/-- What a run leaves behind it. -/
structure Deployed where
  /-- The directory after each file operation; a write passes through every part of
  what it writes. -/
  moments : List LibDir
  result : Bool

/-- `stock.rename(real)` -/
def LibDir.preserve (dir : LibDir) : LibDir := { stock := none, real := dir.stock }

/-- `stock.write_bytes(wrapper)` -/
def LibDir.writeWrapper (dir : LibDir) (wrapper : Content) : List LibDir :=
  (List.range (wrapper.length + 1)).map fun n => { dir with stock := some (wrapper.take n) }

def ensureProxy (enabled : Bool) (wrapper : Content) (dir : LibDir) : Deployed :=
  if ¬ enabled then ⟨[], false⟩
  else if dir.stock.isNone ∧ dir.real.isNone then ⟨[], false⟩
  else
    let current := dir.stock.getD []
    let preserved := if dir.real.isNone ∧ dir.stock.isSome ∧ current ≠ wrapper then [dir.preserve] else []
    let dir := preserved.getLastD dir
    let written := if current ≠ wrapper then dir.writeWrapper wrapper else []
    ⟨preserved ++ written, true⟩

/-- A run with the proxy enabled, and after how many moments it is cut off. -/
structure Run where
  wrapper : Content
  cut : Option Nat

def LibDir.completed (dir : LibDir) (wrapper : Content) : LibDir :=
  (ensureProxy true wrapper dir).moments.getLastD dir

def runProxy (dir : LibDir) (r : Run) : Option LibDir :=
  match r.cut with
  | none => some (dir.completed r.wrapper)
  | some n => (dir :: (ensureProxy true r.wrapper dir).moments)[n]?

end JaplusProxy.Manager
