import SurfaceFabric.Ascending
import SurfaceFabric.Segment

/-!
Tilings: a grid divided into segments, listed by ascending number. Numbers are given out in order
and never used again. This module holds the type and what can be asked of it; edits are made in the
modules beside it.
-/

namespace SurfaceFabric

inductive TilingFlaw
  | badBounds (id : Nat) (rect : Rect)
  | overlap (a b : Nat)
  | coverage (covered total : Nat)
  | listing (a b : Nat) (side : Side) (listed : Bool)
  | oneWay (a b : Nat)
  deriving DecidableEq, Repr

def TilingFlaw.message : TilingFlaw → String
  | .badBounds id rect => segmentName id ++ " has invalid bounds " ++ rect.text
  | .overlap a b => segmentName a ++ " overlaps " ++ segmentName b
  | .coverage covered total => s!"segments cover {covered} of {total} cells"
  | .listing a b side listed =>
      segmentName a ++ " lists " ++ segmentName b ++ " on " ++ side.name ++ ": "
        ++ toString listed
  | .oneWay a b => segmentName a ++ " -> " ++ segmentName b ++ " link is not mutual"

inductive GeometryError
  | unknownSegment (id : Nat)
  | allocated (id : Nat)
  | outOfBounds (id : Nat) (box : Box)
  | badPartition (id : Nat)
  | badEdit
  | broken (flaw : TilingFlaw)
  deriving DecidableEq, Repr

def GeometryError.message : GeometryError → String
  | .unknownSegment id => "Unknown segment " ++ segmentName id
  | .allocated id => "Segment " ++ segmentName id ++ " is already allocated"
  | .outOfBounds id b =>
      s!"Box {b.h}x{b.w} at ({b.y}, {b.x}) lies outside segment " ++ segmentName id
  | .badPartition id => "Pieces do not tile segment " ++ segmentName id
  | .badEdit => "Edit does not preserve the removed area"
  | .broken flaw => "Segment invariant violated: " ++ flaw.message

structure Tiling where
  height : Nat
  width : Nat
  segments : List Segment
  nextId : Nat
  deriving DecidableEq, Repr

namespace Tiling

/-- One free segment over the whole grid, or none at all on an empty grid. -/
def ofSize (height width : Nat) : Tiling :=
  if 0 < height ∧ 0 < width then
    ⟨height, width, [.isolated 0 (.free ⟨0, 0, height, width⟩)], 1⟩
  else ⟨height, width, [], 0⟩

def grid (t : Tiling) : Rect := ⟨0, 0, t.height, t.width⟩

def segment? (t : Tiling) (id : Nat) : Option Segment := t.segments.find? fun s => s.id == id

def segment (t : Tiling) (id : Nat) : Outcome GeometryError Segment :=
  Outcome.ofOption (.unknownSegment id) (t.segment? id)

def at? (t : Tiling) (c : Cell) : Option Segment := t.segments.find? fun s => s.rect.contains c

def roleAt? (t : Tiling) (c : Cell) : Option Role := (t.at? c).map Segment.role

def isRouteAt (t : Tiling) (c : Cell) : Bool := ((t.roleAt? c).map Role.isRoute).getD false

/-- Top to bottom, then left to right, then by number. -/
def readingOrder (a b : Segment) : Bool :=
  a.rect.y0 < b.rect.y0 || (a.rect.y0 == b.rect.y0 &&
    (a.rect.x0 < b.rect.x0 || (a.rect.x0 == b.rect.x0 && a.id ≤ b.id)))

def freeSegments (t : Tiling) : List Segment :=
  sortBy readingOrder (t.segments.filter Segment.isFree)

def setRole (t : Tiling) (id : Nat) (role : Role) (allocated : Bool) :
    Outcome GeometryError Tiling := do
  let _ ← t.segment id
  return { t with
    segments := t.segments.map fun s =>
      if s.id = id then { s with role := role, allocated := allocated } else s }

def release (t : Tiling) (id : Nat) : Outcome GeometryError Tiling :=
  t.setRole id .unassigned false

theorem at?_contains {t : Tiling} {c : Cell} {s : Segment} (h : t.at? c = some s) :
    s.rect.contains c = true := by
  unfold at? at h
  simpa using List.find?_some h

end Tiling

end SurfaceFabric
