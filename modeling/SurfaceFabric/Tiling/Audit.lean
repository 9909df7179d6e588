import SurfaceFabric.Tiling.Edit

/-!
Auditing a tiling: the segments cover the grid exactly, and two segments list each other on opposite
sides just when they touch edge to edge. The first law found broken is reported.
-/

namespace SurfaceFabric.Tiling

/-- Bounds and overlaps of the segments in order, and their total area. -/
def auditCover (grid : Rect) : List Segment → Outcome GeometryError Nat
  | [] => return 0
  | s :: rest => do
      if s.rect.isEmpty || !grid.includes s.rect then
        Outcome.refuse (.broken (.badBounds s.id s.rect))
      let area ← s.rect.area
      match rest.find? fun u => s.rect.overlaps u.rect with
      | some u => Outcome.refuse (.broken (.overlap s.id u.id))
      | none => Long.add area (← auditCover grid rest)

def linkFlaw? (s u : Segment) (side : Side) : Option TilingFlaw :=
  let listed := decide (u.id ∈ s.neighbours side)
  if listed != (s.rect.touchingSide? u.rect == some side) then
    some (.listing s.id u.id side listed)
  else if listed && !decide (s.id ∈ u.neighbours side.opposite) then some (.oneWay s.id u.id)
  else none

def pairFlaw? (s u : Segment) : Option TilingFlaw :=
  if s.id = u.id then none else Side.all.findSome? (linkFlaw? s u)

def audit (t : Tiling) : Outcome GeometryError Unit := do
  let covered ← auditCover t.grid t.segments
  let total ← t.grid.area
  if covered ≠ total then Outcome.refuse (.broken (.coverage covered total))
  match t.segments.findSome? fun s => t.segments.findSome? (pairFlaw? s) with
  | some flaw => Outcome.refuse (.broken flaw)
  | none => return ()

end SurfaceFabric.Tiling
