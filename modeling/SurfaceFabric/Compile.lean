import SurfaceFabric.Pipeline

/-!
Compiling a circuit onto a fabric: its layout, its schedule and its routes.
-/

namespace SurfaceFabric

structure Compiled where
  layout : Layout
  schedule : Schedule
  routing : Routing
  deriving DecidableEq, Repr

namespace Compiled

def cycles (c : Compiled) : Nat := c.routing.cycles

def volume (c : Compiled) : Checked Nat := do
  Long.mul (← Long.mul c.layout.height c.layout.width) c.cycles

def gatesAt (c : Compiled) (t : Nat) : List Nat := c.routing.layers[t]?.getD []

def routesAt (c : Compiled) (t : Nat) : List Route := c.routing.activeAt t

end Compiled

def compile (c : Circuit) (settings : Settings) : Outcome CompileError Compiled := do
  let (a, result) ← Stage.runAll c Stage.standard { settings := some settings }
  match result with
  | .error e => Outcome.refuse e
  | .ok () =>
      return ⟨← Part.layout.need a.layout, ← Part.schedule.need a.schedule,
        ← Part.routing.need a.routing⟩

end SurfaceFabric
