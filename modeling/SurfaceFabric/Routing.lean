import SurfaceFabric.Teleport

/-!
Routings: when each gate runs, through which cells, and what it holds.
-/

namespace SurfaceFabric

structure CellLock where
  cell : Cell
  start : Nat
  stop : Nat
  deriving DecidableEq, Repr

/-- A routed gate. The path runs through the operands in order; the teleports are of this route
alone. -/
structure Route where
  gate : Nat
  start : Nat
  finish : Nat
  path : List Cell
  teleports : List Teleport
  locks : List CellLock
  deriving DecidableEq, Repr

/-- Routes in order of admission, gates by the tick of admission, and merged teleports. -/
structure Routing where
  cycles : Nat
  routes : List Route
  layers : List (List Nat)
  teleports : List Teleport
  deriving DecidableEq, Repr

namespace Routing

def route? (r : Routing) (gate : Nat) : Option Route := r.routes.find? fun x => x.gate == gate

/-- Routes that are running at a tick. -/
def activeAt (r : Routing) (t : Nat) : List Route :=
  r.routes.filter fun x => x.start ≤ t && t < x.finish

end Routing

end SurfaceFabric
