import SurfaceFabric.Tiling

/-!
Edits: some segments are taken out and pieces of exactly the same area put in their place. An edit is
checked as a whole before anything changes. Links are rebuilt only where they can have changed: among
the new segments, and between them and the former neighbours of the removed ones.
-/

namespace SurfaceFabric

structure Edit where
  removed : List Nat
  added : List Piece
  deriving DecidableEq, Repr

namespace Tiling

def removedRects (t : Tiling) : List Nat → List Nat → Outcome GeometryError (List Rect)
  | _, [] => return []
  | seen, id :: rest => do
      if id ∈ seen then Outcome.refuse .badEdit
      let s ← t.segment id
      let rects ← t.removedRects (id :: seen) rest
      return s.rect :: rects

def totalArea (rects : List Rect) : Checked Nat := do
  Long.sum (← rects.mapM Rect.area)

/-- Area of the part of `r` that lies in the given rectangles, which do not overlap. -/
def coveredArea (rects : List Rect) (r : Rect) : Checked Nat :=
  totalArea (rects.filterMap fun s => s.intersection? r)

def checkPieces (removed : List Rect) : List Rect → Outcome GeometryError Unit
  | [] => return ()
  | r :: rest => do
      if r.isEmpty || rest.any r.overlaps then Outcome.refuse .badEdit
      if (← coveredArea removed r) ≠ (← r.area) then Outcome.refuse .badEdit
      checkPieces removed rest

def checkEdit (t : Tiling) (e : Edit) : Outcome GeometryError Unit := do
  let removed ← t.removedRects [] e.removed
  let added := e.added.map Piece.rect
  if (← totalArea removed) ≠ (← totalArea added) then Outcome.refuse .badEdit
  checkPieces removed added

def touchingIds (r : Rect) (side : Side) (others : List Segment) : List Nat :=
  (others.filter fun s => r.touchingSide? s.rect == some side).map Segment.id

def fresh (start : Nat) : List Piece → List Segment
  | [] => []
  | p :: rest => .isolated start p :: fresh (start + 1) rest

@[simp] theorem fresh_length (start : Nat) (pieces : List Piece) :
    (fresh start pieces).length = pieces.length := by
  induction pieces generalizing start with
  | nil => rfl
  | cons p rest ih => simp [fresh, ih]

def rim (t : Tiling) (removed : List Nat) : List Segment :=
  let linked := (t.segments.filter fun s => s.id ∈ removed).flatMap fun s =>
    s.allNeighbours.map Prod.snd
  t.segments.filter fun s => s.id ∉ removed && s.id ∈ linked

def replace (t : Tiling) (e : Edit) (nextId : Nat) : Tiling :=
  let made := fresh t.nextId e.added
  let rim := t.rim e.removed
  let rimIds := rim.map Segment.id
  let kept := (t.segments.filter fun s => s.id ∉ e.removed).map fun s =>
    if s.id ∈ rimIds then
      s.mapLinks fun side links =>
        links.filter (· ∉ e.removed) ++ touchingIds s.rect side made
    else s
  let linked := made.map fun s =>
    s.mapLinks fun side _ => touchingIds s.rect side (rim ++ made)
  { t with segments := kept ++ linked, nextId := nextId }

/-- The next number once `n` more have been given out. Numbers are words and never used again. -/
def nextIdAfter (t : Tiling) (n : Nat) : Checked Nat :=
  if t.nextId + n ≤ Word.top then .ok (t.nextId + n) else .error .idsExhausted

/-- Applies an edit; gives the numbers of the new segments in the order of their pieces. -/
def commit (t : Tiling) (e : Edit) : Outcome GeometryError (List Nat × Tiling) := do
  t.checkEdit e
  let nextId ← t.nextIdAfter e.added.length
  return ((fresh t.nextId e.added).map Segment.id, t.replace e nextId)

end Tiling

end SurfaceFabric
