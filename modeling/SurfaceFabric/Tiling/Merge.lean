import SurfaceFabric.Ascending
import SurfaceFabric.Tiling.Split

/-!
Joining free segments: two that share a whole edge, one with the band next to it that all its
neighbours on a side offer, and all aligned pairs of a grid.
-/

namespace SurfaceFabric.Tiling

def freePair? (t : Tiling) (a b : Nat) : Option (Rect × Rect) := do
  let s ← t.segment? a
  let u ← t.segment? b
  if a ≠ b ∧ s.isFree ∧ u.isFree then some (s.rect, u.rect) else none

def mergeInto (t : Tiling) (removed : List Nat) (merged : Rect) (leftovers : List Rect) :
    Checked (Option (Nat × Tiling)) := do
  return firstOf (← (t.commit ⟨removed, (merged :: leftovers).map Piece.free⟩).toOption)

def besides? (r s : Rect) : Option Rect :=
  if r.x1 = s.x0 then
    if r.y0 = s.y0 ∧ r.y1 = s.y1 then some ⟨r.y0, r.x0, r.y1, s.x1⟩ else none
  else if s.x1 = r.x0 then
    if s.y0 = r.y0 ∧ s.y1 = r.y1 then some ⟨s.y0, s.x0, s.y1, r.x1⟩ else none
  else none

def stacked? (r s : Rect) : Option Rect :=
  if r.y1 = s.y0 then
    if r.x0 = s.x0 ∧ r.x1 = s.x1 then some ⟨r.y0, r.x0, s.y1, r.x1⟩ else none
  else if s.y1 = r.y0 then
    if s.x0 = r.x0 ∧ s.x1 = r.x1 then some ⟨s.y0, s.x0, r.y1, s.x1⟩ else none
  else none

def mergePair (t : Tiling) (join? : Rect → Rect → Option Rect) (a b : Nat) :
    Checked (Option (Nat × Tiling)) :=
  match t.freePair? a b with
  | none => return none
  | some (r, s) =>
      match join? r s with
      | none => return none
      | some merged => t.mergeInto [a, b] merged []

def mergeHorizontal (t : Tiling) (a b : Nat) : Checked (Option (Nat × Tiling)) :=
  t.mergePair besides? a b

def mergeVertical (t : Tiling) (a b : Nat) : Checked (Option (Nat × Tiling)) :=
  t.mergePair stacked? a b

def freeRects? (t : Tiling) : List Nat → Option (List Rect)
  | [] => some []
  | id :: rest => do
      let s ← t.segment? id
      if s.isFree then return s.rect :: (← t.freeRects? rest) else none

/-- What growing on one side reads and computes: the links it follows, the extent of a neighbour, what a band leaves
of a neighbour, where a segment ends, and the segment with another end. -/
structure Growth where
  links : Segment → List Nat
  extent : Rect → Checked Nat
  rest : Rect → Nat → Rect → Checked (List Rect)
  edge : Rect → Nat
  upTo : Rect → Nat → Rect

/-- Grows a free segment on a side by the least extent of its neighbours there. All of them must be free; what sticks
out of the band stays behind as free segments. -/
def Growth.run (g : Growth) (t : Tiling) (id : Nat) : Checked (Option (Nat × Tiling)) := do
  let some s := t.segment? id | return none
  if !s.isFree then return none
  let some rects := t.freeRects? (g.links s) | return none
  let some n := (← rects.mapM g.extent).min? | return none
  let leftovers ← rects.mapM (g.rest s.rect n)
  let edge ← Word.add (g.edge s.rect) n
  t.mergeInto (id :: g.links s) (g.upTo s.rect edge) leftovers.flatten

def Growth.right : Growth where
  links := Segment.right
  extent := Rect.width
  rest s n r := do
    let x1 ← Word.add r.x0 n
    return r.remainder ⟨max r.y0 s.y0, r.x0, min r.y1 s.y1, x1⟩
  edge := Rect.x1
  upTo s x1 := { s with x1 := x1 }

def Growth.down : Growth where
  links := Segment.below
  extent := Rect.height
  rest s n r := do
    let y1 ← Word.add r.y0 n
    return r.remainder ⟨r.y0, max r.x0 s.x0, y1, min r.x1 s.x1⟩
  edge := Rect.y1
  upTo s y1 := { s with y1 := y1 }

def growRight (t : Tiling) (id : Nat) : Checked (Option (Nat × Tiling)) := Growth.right.run t id

def growDown (t : Tiling) (id : Nat) : Checked (Option (Nat × Tiling)) := Growth.down.run t id

/-- The only neighbour of a free segment on a side, if it is free and joins it exactly. -/
def partner? (t : Tiling) (links : Segment → List Nat) (join? : Rect → Rect → Option Rect)
    (s : Segment) : Option (Nat × Nat) :=
  match s.isFree, links s with
  | true, [n] => do
      let u ← t.segment? n
      if u.isFree ∧ (join? s.rect u.rect).isSome then some (s.id, n) else none
  | _, _ => none

def mergeLimit : Nat := 1024

/-- Joins the first aligned pair again and again, at most `n` times; gives the number of merges. -/
def mergeAligned (links : Segment → List Nat) (join? : Rect → Rect → Option Rect) :
    Nat → Tiling → Checked (Nat × Tiling)
  | 0, t => return (0, t)
  | n + 1, t =>
      match t.segments.findSome? (t.partner? links join?) with
      | none => return (0, t)
      | some (a, b) => do
          let some (_, t') ← t.mergePair join? a b | return (0, t)
          let (count, t'') ← mergeAligned links join? n t'
          return (count + 1, t'')

def mergeColumns (t : Tiling) : Checked (Nat × Tiling) :=
  mergeAligned Segment.below stacked? mergeLimit t

def mergeRows (t : Tiling) : Checked (Nat × Tiling) :=
  mergeAligned Segment.right besides? mergeLimit t

def mergeFree (t : Tiling) : Checked Tiling := do
  let (_, t) ← t.mergeColumns
  let (_, t) ← t.mergeRows
  return t

def growFully : Nat → Nat → Tiling → Checked Tiling
  | 0, _, t => return t
  | n + 1, id, t => do
      match ← t.growDown id with
      | none => return t
      | some (id, t) => growFully n id t

/-- Grows every free segment downwards as far as it goes, then joins rows. -/
def growAll (t : Tiling) : Checked Tiling := do
  let t ← t.freeSegments.foldlM (fun t s => growFully t.height s.id t) t
  let (_, t) ← t.mergeRows
  return t

end SurfaceFabric.Tiling
