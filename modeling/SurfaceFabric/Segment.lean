import SurfaceFabric.Rect

/-!
Segments: the rectangles a grid is divided into, what each is used for, and which others lie against
its four sides. Pieces are segments still to be made.
-/

namespace SurfaceFabric

/-- What a segment is used for. Local routes belong to one factory block. -/
inductive Role
  | unassigned
  | register
  | route
  | localRoute
  | io
  | factory (handle : Nat)
  | intermediary
  deriving DecidableEq, Repr

namespace Role

def isRoute : Role → Bool
  | .route | .localRoute => true
  | _ => false

def isTerminal : Role → Bool
  | .register | .io | .factory _ => true
  | _ => false

def glyph : Role → Char
  | .unassigned => '.'
  | .register => 'R'
  | .route => '#'
  | .localRoute => '+'
  | .io => 'I'
  | .factory _ => 'X'
  | .intermediary => '?'

end Role

def segmentName (id : Nat) : String := "s" ++ toString id

def handleName (handle : Nat) : String := "x" ++ toString handle

structure Piece where
  rect : Rect
  role : Role
  allocated : Bool
  deriving DecidableEq, Repr

namespace Piece

def free (r : Rect) : Piece := ⟨r, .unassigned, false⟩

def taken (role : Role) (r : Rect) : Piece := ⟨r, role, true⟩

end Piece

/-- Links are ascending lists of segment numbers. -/
structure Segment where
  id : Nat
  rect : Rect
  allocated : Bool
  role : Role
  above : List Nat
  below : List Nat
  left : List Nat
  right : List Nat
  deriving DecidableEq, Repr

namespace Segment

def isolated (id : Nat) (p : Piece) : Segment :=
  ⟨id, p.rect, p.allocated, p.role, [], [], [], []⟩

def neighbours (s : Segment) : Side → List Nat
  | .above => s.above
  | .below => s.below
  | .left => s.left
  | .right => s.right

def mapLinks (s : Segment) (g : Side → List Nat → List Nat) : Segment :=
  { s with
    above := g .above s.above
    below := g .below s.below
    left := g .left s.left
    right := g .right s.right }

def allNeighbours (s : Segment) : List (Side × Nat) :=
  Side.all.flatMap fun side => (s.neighbours side).map fun n => (side, n)

def isFree (s : Segment) : Bool := !s.allocated && s.role == .unassigned

@[simp] theorem neighbours_mapLinks (s : Segment) (g : Side → List Nat → List Nat) (side : Side) :
    (s.mapLinks g).neighbours side = g side (s.neighbours side) := by
  cases side <;> rfl

end Segment

end SurfaceFabric
