import SurfaceFabric.Ascending
import SurfaceFabric.Placement.Connector

/-!
Connecting the routing segments of a tiling to the one that holds the main routing row.
-/

namespace SurfaceFabric.Tiling

def spreadOnce (t : Tiling) (ids : List Nat) : List Nat :=
  (t.segments.filter fun s =>
    s.role.isRoute && (s.id ∈ ids || s.allNeighbours.any fun n => n.2 ∈ ids)).map Segment.id

/-- Spreads until nothing is added, at most `n` times. -/
def spread (t : Tiling) : Nat → List Nat → List Nat
  | 0, ids => ids
  | n + 1, ids =>
      let next := t.spreadOnce ids
      if next.length = ids.length then ids else t.spread n next

def routeComponent (t : Tiling) (id : Nat) : List Nat := t.spread t.segments.length [id]

/-- Ends further down, or as far down and starts further left. -/
def lower (s u : Segment) : Bool :=
  u.rect.y1 < s.rect.y1 || (u.rect.y1 == s.rect.y1 && s.rect.x0 < u.rect.x0)

/-- Column and end row of a connector from below a rectangle to one of the given segments. -/
def dropFrom? (t : Tiling) (r : Rect) (targets : List Nat) : Option (Nat × Nat) :=
  (List.range' r.x0 (r.x1 - r.x0)).findSome? fun x =>
    (t.probeDown (· ∈ targets) x r.y1).map fun stop => (x, stop)

/-- Drops a connector from the lowest detached routing segment, again and again until none is
detached, at most `n` times. -/
def connectFrom (anchor : Segment) : Nat → Tiling → Outcome PlacementError Tiling
  | 0, t => return t
  | n + 1, t => do
      if !anchor.role.isRoute then Outcome.refuse (.disconnected anchor.id)
      let main := t.routeComponent anchor.id
      match extreme? lower (t.segments.filter fun s => s.role.isRoute && s.id ∉ main) with
      | none => return t
      | some s =>
          match t.dropFrom? s.rect main with
          | none => Outcome.refuse (.disconnected s.id)
          | some (x, stop) => do connectFrom anchor n (← t.carveConnector x stop s.rect.y1)

def connectRoutes (t : Tiling) (anchor : Cell) : Outcome PlacementError Tiling :=
  match t.at? anchor with
  | none => Outcome.refuse (.gridTooSmall t.height t.width)
  | some s => connectFrom s t.segments.length t

end SurfaceFabric.Tiling
