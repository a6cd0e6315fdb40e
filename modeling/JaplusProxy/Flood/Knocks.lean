import JaplusProxy.Flood.DropReports

/-! Connectionless packets on their way to the password. The detour of
SV_ConnectionlessPacket takes each of them first, and Detour_Rcon those that the engine then
hands to SVC_RemoteCommand. -/
namespace JaplusProxy.Flood
open CString CInt

/-- The clock stands at `early` when OOB_ShouldDrop reads it, and at `report` when the detour
does for a drop. An rcon command that got as far is handed on at `rcon`. -/
structure Knock where
  ip : UInt32
  early : Int
  report : Int
  rcon : Option Int
  deriving DecidableEq

/-- How far a packet got: to the engine, and to the password. -/
structure Passage where
  knock : Knock
  received : Bool
  tried : Bool
  deriving DecidableEq

namespace Knock

/-- The packet as the limit of connectionless ones sees it. -/
def packet (k : Knock) : Packet := ⟨k.ip, k.early⟩

/-- The clock does not go back. -/
structure InOrder (ks : List Knock) : Prop where
  within : ∀ k ∈ ks, ∀ late ∈ k.rcon, k.early ≤ late
  between : ks.Pairwise fun j k => j.early ≤ k.early ∧ ∀ late ∈ j.rcon, late ≤ k.early

theorem InOrder.tail (order : InOrder (k :: ks)) : InOrder ks where
  within := fun j member => order.within j (.tail _ member)
  between := (List.pairwise_cons.mp order.between).2

theorem InOrder.packets (order : InOrder ks) : Ordered (ks.map packet) :=
  List.pairwise_map.mpr (order.between.imp And.left)

end Knock

namespace Detours

def receive (cvar : Bytes → Int) (d : Detours) (k : Knock) : Detours × Passage :=
  let (d, first) := d.meet ⟨.connless, k.ip, cvar, k.early, k.report⟩
  match first.forwarded, k.rcon with
  | true, some late =>
    let (d, second) := d.meet ⟨.rcon, k.ip, cvar, late, late⟩
    (d, ⟨k, true, second.forwarded⟩)
  | received, _ => (d, ⟨k, received, false⟩)

def receiveAll (cvar : Bytes → Int) (d : Detours) : List Knock → List Passage
  | [] => []
  | k :: ks =>
    let (d, passage) := d.receive cvar k
    passage :: receiveAll cvar d ks

end Detours

/-- The passages of a window to the password, by when the packets came in. -/
def triedIn (source : UInt32 → Bool) (start width : Int) (run : List Passage) : Nat :=
  run.countP fun p => p.tried && source p.knock.ip && start ≤ p.knock.early && p.knock.early ≤ start + width

/-- The packets as Detour_Rcon meets them. -/
def Passage.handed (p : Passage) : Option (Packet × Bool) :=
  if p.received then p.knock.rcon.map fun late => (⟨p.knock.ip, late⟩, p.tried) else none

end JaplusProxy.Flood
