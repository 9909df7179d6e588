import SurfaceFabric.Placement.Error
import SurfaceFabric.Tiling.Merge

/-!
Filling free space with registers and the routing they need. Free segments are taken in reading order,
and what becomes of one depends on where it touches routing. A segment without any contact is left
free. Whatever a step does not use stays free for the next one.
-/

namespace SurfaceFabric

/-- What to do with a free segment. A stack grows from the side where routing runs along the whole
edge; a contact run puts registers next to the first run of routing in a row. -/
inductive FillStep
  | stack (base : Side)
  | routeRow (y : Nat)
  | contactRun (y : Nat)
  | skip
  deriving DecidableEq, Repr

namespace Tiling

def routeColumns (t : Tiling) (r : Rect) (y : Nat) : List Nat :=
  if y < t.height then (List.range' r.x0 (r.x1 - r.x0)).filter fun x => t.isRouteAt ⟨y, x⟩ else []

def columnsAbove (t : Tiling) (r : Rect) : List Nat :=
  if r.y0 = 0 then [] else t.routeColumns r (r.y0 - 1)

def columnsBelow (t : Tiling) (r : Rect) : List Nat := t.routeColumns r r.y1

def sideContact (t : Tiling) (r : Rect) (y : Nat) : Bool :=
  (0 < r.x0 && t.isRouteAt ⟨y, r.x0 - 1⟩) || (r.x1 < t.width && t.isRouteAt ⟨y, r.x1⟩)

def sideStep (t : Tiling) (r : Rect) : FillStep :=
  match (List.range' r.y0 (r.y1 - r.y0)).reverse.find? (t.sideContact r) with
  | some y => .routeRow y
  | none => .skip

def fillStep (t : Tiling) (r : Rect) : Checked FillStep := do
  let h ← r.height
  let w ← r.width
  let above := t.columnsAbove r
  let below := t.columnsBelow r
  if r.y0 = 0 ∧ h = 1 then
    return if below.isEmpty then t.sideStep r else .contactRun r.y1
  else if above.length = w then return .stack .above
  else if 2 ≤ h then
    if below.length = w then return .stack .below
    else if !below.isEmpty then return .routeRow (← Word.sub r.y1 1)
    else return if !above.isEmpty then .routeRow r.y0 else t.sideStep r
  else if !below.isEmpty then return .contactRun r.y1
  else if !above.isEmpty then return .contactRun (← Word.sub r.y0 1)
  else return t.sideStep r

/-- Replaces a segment by pieces that tile a band of it; the rest stays free. -/
def carve (t : Tiling) (s : Segment) (band : Rect) (pieces : List Piece) :
    Outcome PlacementError Tiling := do
  let used := pieces.filter fun p => !p.rect.isEmpty
  let rest := (s.rect.remainder band).map Piece.free
  let (_, t) ← (t.partition s.id (used ++ rest)).mapRefusal .geometry
  return t

def routeRow (t : Tiling) (s : Segment) (y : Nat) : Outcome PlacementError Tiling := do
  let band ← Rect.ofBox ⟨y, s.rect.x0, 1, ← s.rect.width⟩
  t.carve s band [.taken .route band]

def runLength : List Nat → Nat
  | a :: b :: rest => if b = a + 1 then runLength (b :: rest) + 1 else 1
  | [_] => 1
  | [] => 0

def contactRun (t : Tiling) (s : Segment) (y : Nat) : Outcome PlacementError Tiling := do
  let columns := t.routeColumns s.rect y
  match columns with
  | [] => t.routeRow s s.rect.y0
  | x :: _ =>
      let band ← Rect.ofBox ⟨s.rect.y0, x, 1, runLength columns⟩
      t.carve s band [.taken .register band]

/-- `n` rows of a rectangle from row `i` on, counted from its upper or lower edge. -/
def rowsFrom (base : Side) (r : Rect) (i n : Nat) : Checked Rect := do
  let w ← r.width
  match base with
  | .below => Rect.ofBox ⟨← Word.sub (← Word.sub r.y1 i) n, r.x0, n, w⟩
  | _ => Rect.ofBox ⟨← Word.add r.y0 i, r.x0, n, w⟩

def splitBand (x : Nat) (band : Rect) : Checked (List Piece) := do
  let next ← Word.add x 1
  return [.taken .register { band with x1 := x }, .taken .route { band with x0 := x, x1 := next },
    .taken .register { band with x0 := next }]

/-- The pieces of a stack and the rows they take, with routing along the base edge. One row is all
registers, and so are two rows between routing. Otherwise the first one or two rows are registers with a
drop in the middle, and the next row is routing. A single column becomes a corridor that ends in a
register. -/
def stackPieces (t : Tiling) (r : Rect) (base : Side) : Checked (Rect × List Piece) := do
  let h ← r.height
  let w ← r.width
  if h = 1 then return (r, [.taken .register r])
  else if w = 1 then
    let n ← Word.sub h 1
    return (r, [.taken .route (← rowsFrom base r 0 n), .taken .register (← rowsFrom base r n 1)])
  else
    let middle ← Word.add r.x0 (w / 2)
    if h = 2 then
      let far := if base = .below then t.columnsAbove r else t.columnsBelow r
      if far.length = w then return (r, [.taken .register r])
      else
        let near ← splitBand middle (← rowsFrom base r 0 1)
        return (r, near ++ [.taken .route (← rowsFrom base r 1 1)])
    else
      let near ← splitBand middle (← rowsFrom base r 0 2)
      return (← rowsFrom base r 0 3, near ++ [.taken .route (← rowsFrom base r 2 1)])

def stack (t : Tiling) (s : Segment) (base : Side) : Outcome PlacementError Tiling := do
  let (band, pieces) ← t.stackPieces s.rect base
  t.carve s band pieces

/-- Takes free segments until only those in `skipped` are left, at most `n` steps. -/
def fillFrom : Nat → List Rect → Tiling → Outcome PlacementError Tiling
  | 0, _, t => return t
  | n + 1, skipped, t => do
      let t ← t.mergeFree
      match t.freeSegments.find? fun s => s.rect ∉ skipped with
      | none => return t
      | some s =>
          match ← t.fillStep s.rect with
          | .skip => fillFrom n (s.rect :: skipped) t
          | .stack base => do fillFrom n skipped (← t.stack s base)
          | .routeRow y => do fillFrom n skipped (← t.routeRow s y)
          | .contactRun y => do fillFrom n skipped (← t.contactRun s y)

def fillBudget (t : Tiling) : Checked Nat := do
  Long.add (← Long.mul (← Long.mul t.height t.width) 4) 16

def fillRegisters (t : Tiling) : Outcome PlacementError Tiling := do
  fillFrom (← t.fillBudget) [] t

end Tiling

end SurfaceFabric
