import SurfaceFabric.Word

/-!
Cells and rectangles of the grid. Rectangles have half-open upper bounds and are plain data: one may
be empty or even inverted, and whoever needs more checks it. Sizes are words, so the height of an
inverted rectangle is a fault; areas are products in the wider word and never leave it.
-/

namespace SurfaceFabric

structure Cell where
  y : Nat
  x : Nat
  deriving DecidableEq, Repr

inductive Side
  | above
  | below
  | left
  | right
  deriving DecidableEq, Repr

namespace Side

def all : List Side := [.above, .below, .left, .right]

def opposite : Side → Side
  | .above => .below
  | .below => .above
  | .left => .right
  | .right => .left

def isVertical : Side → Bool
  | .above | .below => true
  | .left | .right => false

def name : Side → String
  | .above => "Above"
  | .below => "Below"
  | .left => "Left"
  | .right => "Right"

@[simp] theorem opposite_opposite (s : Side) : s.opposite.opposite = s := by cases s <;> rfl

@[simp] theorem mem_all (s : Side) : s ∈ all := by cases s <;> simp [all]

end Side

namespace Cell

def text (c : Cell) : String := s!"({c.y}, {c.x})"

def le (a b : Cell) : Bool := a.y < b.y || (a.y == b.y && a.x ≤ b.x)

def gap (a b : Nat) : Nat := if a ≤ b then b - a else a - b

def distance (a b : Cell) : Checked Nat := Word.add (gap a.y b.y) (gap a.x b.x)

end Cell

structure Box where
  y : Nat
  x : Nat
  h : Nat
  w : Nat
  deriving DecidableEq, Repr

structure Rect where
  y0 : Nat
  x0 : Nat
  y1 : Nat
  x1 : Nat
  deriving DecidableEq, Repr

namespace Rect

def ofBox (b : Box) : Checked Rect := do
  let y1 ← Word.add b.y b.h
  let x1 ← Word.add b.x b.w
  return ⟨b.y, b.x, y1, x1⟩

def height (r : Rect) : Checked Nat := Word.sub r.y1 r.y0

def width (r : Rect) : Checked Nat := Word.sub r.x1 r.x0

def area (r : Rect) : Checked Nat := do
  let h ← r.height
  let w ← r.width
  return h * w

def isEmpty (r : Rect) : Bool := r.y1 ≤ r.y0 || r.x1 ≤ r.x0

def contains (r : Rect) (c : Cell) : Bool :=
  r.y0 ≤ c.y && c.y < r.y1 && r.x0 ≤ c.x && c.x < r.x1

def includes (r s : Rect) : Bool :=
  r.y0 ≤ s.y0 && s.y1 ≤ r.y1 && r.x0 ≤ s.x0 && s.x1 ≤ r.x1

def meet (r s : Rect) : Rect :=
  ⟨max r.y0 s.y0, max r.x0 s.x0, min r.y1 s.y1, min r.x1 s.x1⟩

def intersection? (r s : Rect) : Option Rect :=
  if (r.meet s).isEmpty then none else some (r.meet s)

def overlaps (r s : Rect) : Bool := !(r.meet s).isEmpty

/-- The side of `r` on which `s` lies against it, edge to edge. -/
def touchingSide? (r s : Rect) : Option Side :=
  let rows := max r.y0 s.y0 < min r.y1 s.y1
  let columns := max r.x0 s.x0 < min r.x1 s.x1
  if columns ∧ s.y1 = r.y0 then some .above
  else if columns ∧ s.y0 = r.y1 then some .below
  else if rows ∧ s.x1 = r.x0 then some .left
  else if rows ∧ s.x0 = r.x1 then some .right
  else none

/-- What is left of `r` when `inner` is cut out: the band above, the band below, then what lies left
and right of it in the middle band. -/
def remainder (r inner : Rect) : List Rect :=
  [⟨r.y0, r.x0, inner.y0, r.x1⟩, ⟨inner.y1, r.x0, r.y1, r.x1⟩,
    ⟨inner.y0, r.x0, inner.y1, inner.x0⟩, ⟨inner.y0, inner.x1, inner.y1, r.x1⟩].filter
    fun piece => !piece.isEmpty

/-- Number of cells; none for an inverted rectangle. -/
def cellCount (r : Rect) : Nat := (r.y1 - r.y0) * (r.x1 - r.x0)

def cellAt (r : Rect) (i : Nat) : Cell :=
  ⟨r.y0 + i / (r.x1 - r.x0), r.x0 + i % (r.x1 - r.x0)⟩

def firstCells (r : Rect) (n : Nat) : List Cell := (List.range (min n r.cellCount)).map r.cellAt

def cells (r : Rect) : List Cell := r.firstCells r.cellCount

def text (r : Rect) : String := s!"[{r.y0}..{r.y1}, {r.x0}..{r.x1}]"

def compare (r s : Rect) : Ordering :=
  (Ord.compare r.y0 s.y0).then <| (Ord.compare r.x0 s.x0).then <|
    (Ord.compare r.y1 s.y1).then (Ord.compare r.x1 s.x1)

@[simp] theorem contains_iff {r : Rect} {c : Cell} :
    r.contains c = true ↔ r.y0 ≤ c.y ∧ c.y < r.y1 ∧ r.x0 ≤ c.x ∧ c.x < r.x1 := by
  simp [contains, and_assoc]

theorem height_eq_ok {r : Rect} (h : r.y0 ≤ r.y1) : r.height = .ok (r.y1 - r.y0) := by
  simp [height, Word.sub, h]

theorem width_eq_ok {r : Rect} (h : r.x0 ≤ r.x1) : r.width = .ok (r.x1 - r.x0) := by
  simp [width, Word.sub, h]

end Rect

def Cell.compare (a b : Cell) : Ordering := (Ord.compare a.y b.y).then (Ord.compare a.x b.x)

end SurfaceFabric
