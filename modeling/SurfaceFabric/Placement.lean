import SurfaceFabric.Placement.Connect
import SurfaceFabric.Placement.Factory
import SurfaceFabric.Placement.Fill
import SurfaceFabric.Plan

/-!
Placing a plan on a grid: an I/O strip on the bottom row with a routing row above it, the factories in
order of descending area, connectors for routing that is cut off, registers in the free space, and
extra lanes. In the end the layout must hold the circuit's symbols.
-/

namespace SurfaceFabric.Layout

/-- The I/O strip on the bottom row, if any I/O is wanted; gives the number of the lowest row that is
left. -/
def placeStrip (height width io : Nat) : Outcome PlacementError (Nat × Tiling) := do
  let t := Tiling.ofSize height width
  let root ← Outcome.ofOption (.gridTooSmall height width) (t.at? ⟨0, 0⟩)
  let bottom ← Word.sub height 1
  if io = 0 then return (bottom, t)
  else
    let strip ← t.allocAt root.id ⟨bottom, 0, 1, io⟩ .io
    let (_, t) ← Outcome.ofOption (.ioExhausted io) strip
    return (← Word.sub height 2, t)

def placeIo (height width io : Nat) : Outcome PlacementError (Nat × Layout) := do
  let tooSmall := PlacementError.gridTooSmall height width
  if height < 2 ∨ width = 0 then Outcome.refuse tooSmall
  if width < io then Outcome.refuse (.ioExhausted io)
  let (row, t) ← placeStrip height width io
  let host ← Outcome.ofOption tooSmall (t.at? ⟨row, 0⟩)
  let (_, t) ← Outcome.ofOption tooSmall (← t.allocAt host.id ⟨row, 0, 1, width⟩ .route)
  return (row, .ofTiling t io)

def wider (a b : Nat × Segment) : Bool :=
  b.1 < a.1 || (a.1 == b.1 && (a.2.rect.y0 < b.2.rect.y0 ||
    (a.2.rect.y0 == b.2.rect.y0 && a.2.rect.x0 < b.2.rect.x0)))

/-- The widest register strip that leaves registers on both sides of a lane, with its width. -/
def widestStrip? (t : Tiling) : Checked (Option (Nat × Segment)) := do
  let strips ← (t.segments.filter fun s => s.role == .register).mapM fun s => do
    return (← s.rect.width, s)
  return extreme? wider (strips.filter fun s => 3 ≤ s.1)

def lanePieces (r : Rect) (x : Nat) : Checked (List Piece) := do
  let h ← r.height
  let left ← Rect.ofBox ⟨r.y0, r.x0, h, ← Word.sub x r.x0⟩
  let lane ← Rect.ofBox ⟨r.y0, x, h, 1⟩
  let right ← Rect.ofBox ⟨r.y0, ← Word.add x 1, h, ← Word.sub (← Word.sub r.x1 x) 1⟩
  return [.taken .register left, .taken .route lane, .taken .register right]

def splitLane (t : Tiling) : Outcome PlacementError Tiling := do
  let some (w, s) ← widestStrip? t | Outcome.refuse .laneExhausted
  let x ← Word.add s.rect.x0 (w / 2)
  let t ← (t.release s.id).mapRefusal .geometry
  let pieces ← lanePieces s.rect x
  let (_, t) ← (t.partition s.id pieces).mapRefusal .geometry
  return t

def splitLanes : Nat → Tiling → Outcome PlacementError Tiling
  | 0, t => return t
  | n + 1, t => do splitLanes n (← splitLane t)

def checkCapacity (l : Layout) (c : Circuit) : Outcome PlacementError Unit := do
  let registers ← l.capacity .register
  if registers < c.registerCount then
    Outcome.refuse (.insufficientSlots .register c.registerCount registers)
  let io ← l.capacity .io
  if io < c.ioCount then Outcome.refuse (.insufficientSlots .io c.ioCount io)

def place (c : Circuit) (height width : Nat) (plan : Plan) : Outcome PlacementError Layout := do
  let (row, l) ← placeIo height width c.ioCount
  let l ← (← plan.byArea).foldlM placeFactory l
  let t ← l.tiling.connectRoutes ⟨row, 0⟩
  let t ← t.fillRegisters
  let t ← splitLanes plan.lanes t
  let l := { l with tiling := t }
  l.checkCapacity c
  return l

end SurfaceFabric.Layout
