import SurfaceFabric.Tiling.Edit

/-!
Cutting one segment: splitting it around a box, allocating a box inside it, and replacing it by an
exact tiling of its own.
-/

namespace SurfaceFabric.Tiling

/-- Carves a box out of an unallocated segment. The box comes first, then the remainder; all keep
the segment's role. -/
def splitEdit (t : Tiling) (id : Nat) (b : Box) : Outcome GeometryError Edit := do
  let s ← t.segment id
  if s.allocated then Outcome.refuse (.allocated id)
  let inner ← Rect.ofBox b
  if inner.isEmpty || !s.rect.includes inner then Outcome.refuse (.outOfBounds id b)
  return ⟨[id], (inner :: s.rect.remainder inner).map fun r => ⟨r, s.role, false⟩⟩

def split (t : Tiling) (id : Nat) (b : Box) : Outcome GeometryError (List Nat × Tiling) := do
  t.commit (← t.splitEdit id b)

def claimFirst (role : Role) (e : Edit) : Edit :=
  match e.added with
  | [] => e
  | p :: rest => { e with added := ⟨p.rect, role, true⟩ :: rest }

def firstOf : Option (List Nat × Tiling) → Option (Nat × Tiling)
  | some (id :: _, t) => some (id, t)
  | _ => none

/-- Allocates a box inside a segment; nothing if the segment is taken or the box does not fit. -/
def allocAt (t : Tiling) (id : Nat) (b : Box) (role : Role) : Checked (Option (Nat × Tiling)) := do
  let some s := t.segment? id | return none
  if s.allocated then return none
  if (← s.rect.height) < b.h then return none
  if (← s.rect.width) < b.w then return none
  let some e ← (t.splitEdit id b).toOption | return none
  return firstOf (← (t.commit (claimFirst role e)).toOption)

def alloc (t : Tiling) (id h w : Nat) (role : Role) : Checked (Option (Nat × Tiling)) :=
  match t.segment? id with
  | none => return none
  | some s => t.allocAt id ⟨s.rect.y0, s.rect.x0, h, w⟩ role

def pairwiseApart : List Rect → Bool
  | [] => true
  | r :: rest => !rest.any r.overlaps && pairwiseApart rest

def partition (t : Tiling) (id : Nat) (pieces : List Piece) :
    Outcome GeometryError (List Nat × Tiling) := do
  let s ← t.segment id
  if s.allocated then Outcome.refuse (.allocated id)
  let rects := pieces.map Piece.rect
  let area ← totalArea rects
  if area ≠ (← s.rect.area) || !pairwiseApart rects
      || rects.any (fun r => r.isEmpty || !s.rect.includes r) then
    Outcome.refuse (.badPartition id)
  t.commit ⟨[id], pieces⟩

/-- A free piece for every cell of a segment; none if there is no such segment. -/
def cellPieces (t : Tiling) (id : Nat) : List Piece :=
  ((t.segment? id).map fun s =>
    s.rect.cells.map fun c => Piece.free ⟨c.y, c.x, c.y + 1, c.x + 1⟩).getD []

end SurfaceFabric.Tiling
