import SurfaceFabric.Circuit
import SurfaceFabric.Error

/-!
Plans: the factories a layout is to hold, one entry each, and how many register strips are to be split
by an extra routing lane.
-/

namespace SurfaceFabric

structure Plan where
  factories : List Template := []
  lanes : Nat := 0
  deriving DecidableEq, Repr

namespace Plan

def initial (c : Circuit) (settings : Settings) : Outcome CompileError Plan := do
  let factories ← c.templates.mapM fun name =>
    Outcome.ofOption (.unknownTemplate name) (settings.template? name)
  return { factories := factories }

def withLane (p : Plan) : Checked Plan := do
  let lanes ← Long.add p.lanes 1
  return { p with lanes := lanes }

def withFactory (p : Plan) (t : Template) : Plan := { p with factories := p.factories ++ [t] }

def distinct (seen : List String) : List Template → List Template
  | [] => []
  | t :: rest =>
      if t.symbol ∈ seen then distinct seen rest else t :: distinct (t.symbol :: seen) rest

def templates (p : Plan) : List Template := distinct [] p.factories

/-- The factories in order of descending area, those of equal area as they stand. Areas are only
needed where there is something to compare. -/
def byArea (p : Plan) : Checked (List Template) :=
  if p.factories.length < 2 then return p.factories
  else do
    let areas ← p.factories.mapM Template.area
    return (sortBy (fun a b => b.1 ≤ a.1) (areas.zip p.factories)).map Prod.snd

end Plan

end SurfaceFabric
