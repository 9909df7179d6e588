import SurfaceFabric.Layout
import SurfaceFabric.SlotTree.Tally

/-!
Slot trees. Register, I/O and factory segments are leaves that hang off routing segments, and these are
joined by junctions. Every node knows how many slots of each kind are left below it. Nodes are addressed
by their position; positions never change, so a junction that has been taken out of the tree stays behind
as an isolated node.
-/

namespace SurfaceFabric

inductive SlotNodeKind
  | cells (segment : Nat) (kind : SlotKind) (left : List Cell)
  | factory (segment handle : Nat) (template : String) (entrance : Cell) (taken : Bool)
  | route (segment : Nat)
  | junction
  deriving DecidableEq, Repr

/-- Requests go to the children in the order of the queue. -/
structure SlotNode where
  kind : SlotNodeKind
  parent : Option Nat
  children : List Nat
  weight : Float
  queue : List Nat
  free : Tally

structure SlotTree where
  nodes : List SlotNode
  root : Option Nat

/-- A cell handed out, with the factory that is entered through it. -/
structure Slot where
  cell : Cell
  handle : Option Nat
  deriving DecidableEq, Repr

namespace SlotNodeKind

def isLeaf : SlotNodeKind → Bool
  | .cells .. | .factory .. => true
  | .route _ | .junction => false

/-- Slots that the node itself offers before any is handed out. -/
def offers : SlotNodeKind → Tally
  | .cells _ kind left => Tally.empty.add kind left.length
  | .factory _ _ template _ _ => Tally.empty.add (.factory template) 1
  | .route _ | .junction => .empty

end SlotNodeKind

namespace SlotNode

def isolated (kind : SlotNodeKind) (weight : Float) : SlotNode :=
  ⟨kind, none, [], weight, [], .empty⟩

def isLeaf (n : SlotNode) : Bool := n.kind.isLeaf

def spend (kind : SlotKind) (n : SlotNode) : SlotNode :=
  { n with free := n.free.spend kind }

end SlotNode

namespace SlotTree

def empty : SlotTree := ⟨[], none⟩

def node? (t : SlotTree) (i : Nat) : Option SlotNode := t.nodes[i]?

def modify (t : SlotTree) (i : Nat) (g : SlotNode → SlotNode) : SlotTree :=
  { t with nodes := t.nodes.modify i g }

def push (t : SlotTree) (n : SlotNode) : SlotTree := { t with nodes := t.nodes ++ [n] }

def attach (t : SlotTree) (parent child : Nat) : SlotTree :=
  (t.modify child fun n => { n with parent := some parent }).modify parent fun n =>
    { n with children := n.children ++ [child], queue := n.queue ++ [child] }

def children (t : SlotTree) (i : Nat) : List Nat := ((t.node? i).map SlotNode.children).getD []

def weight (t : SlotTree) (i : Nat) : Float := ((t.node? i).map SlotNode.weight).getD 0

def tally (t : SlotTree) (i : Nat) : Tally := ((t.node? i).map SlotNode.free).getD .empty

def free (t : SlotTree) (i : Nat) (kind : SlotKind) : Nat := (t.tally i).count kind

def capacity (t : SlotTree) (kind : SlotKind) : Nat := (t.root.map (t.free · kind)).getD 0

@[simp] theorem modify_length (t : SlotTree) (i : Nat) (g : SlotNode → SlotNode) :
    (t.modify i g).nodes.length = t.nodes.length := by
  simp [modify]

end SlotTree

end SurfaceFabric
