import SurfaceFabric.SlotTree
import SurfaceFabric.SlotTree.Access

/-!
Joining routing segments into one tree. Every segment starts as a cluster of its own under a junction.
In each round every cluster picks its smallest link to another cluster, and the clusters joined by the
picked links get a common junction. Junctions with a single child are taken out at the end.
-/

namespace SurfaceFabric.SlotTree

/-- A link out of a cluster: both segment numbers in order, then the positions of its two ends. -/
structure Link where
  low : Nat
  high : Nat
  i : Nat
  j : Nat
  deriving DecidableEq, Repr

def Link.before (a b : Link) : Bool :=
  a.low < b.low || (a.low == b.low && (a.high < b.high || (a.high == b.high &&
    (a.i < b.i || (a.i == b.i && a.j < b.j)))))

def cover (t : SlotTree) (members : List Nat) : SlotTree :=
  members.foldl (fun u m => u.attach t.nodes.length m) (t.push (.isolated .junction 0))

/-- Where clustering stands: the tree, the clusters, and the top node of each by position. -/
structure Clustering where
  tree : SlotTree
  classes : Classes
  tops : List Nat

namespace Clustering

def raise (c : Clustering) (i : Nat) : Clustering :=
  { c with tree := c.tree.cover [i], tops := c.tops ++ [c.tree.nodes.length] }

/-- Every routing segment under a junction of its own. Route nodes come first in the tree, in the order
of the segments. -/
def start (t : SlotTree) (n : Nat) : Clustering :=
  (List.range n).foldl raise ⟨t, .ofSize n, []⟩

def outgoing (g : AccessGraph) (routes : List Nat) (c : Clustering) : List (Nat × Link) :=
  routes.zipIdx.flatMap fun (a, i) => (g.neighbours a).filterMap fun b => do
    let j ← routes.findIdx? (· == b)
    let leader := c.classes.leader i
    if leader = c.classes.leader j then none else some (leader, ⟨min a b, max a b, i, j⟩)

/-- The smallest link of every cluster that has one, by ascending leader. -/
def chosen (c : Clustering) (links : List (Nat × Link)) : List Link :=
  c.classes.roots.filterMap fun leader =>
    extreme? Link.before ((links.filter fun l => l.1 == leader).map Prod.snd)

def join (former : List Nat) (c : Clustering) (leader : Nat) : Clustering :=
  let members := (former.filter fun l => c.classes.leader l == leader).filterMap fun l => c.tops[l]?
  match members with
  | [top] => { c with tops := c.tops.set leader top }
  | _ => { c with tree := c.tree.cover members, tops := c.tops.set leader c.tree.nodes.length }

def rounds (g : AccessGraph) (routes : List Nat) : Nat → Clustering → Clustering
  | 0, c => c
  | n + 1, c =>
      match c.chosen (outgoing g routes c) with
      | [] => c
      | links =>
          let classes := links.foldl (fun k l => k.merge l.i l.j) c.classes
          rounds g routes n
            (classes.roots.foldl (join c.classes.roots) { c with classes := classes })

def top? (c : Clustering) : Option Nat := c.classes.roots.head?.bind fun l => c.tops[l]?

def rooted (c : Clustering) : SlotTree := { c.tree with root := c.top? }

end Clustering

def replaceChild (a b : Nat) (l : List Nat) : List Nat := l.map fun c => if c = a then b else c

/-- Lets node `b` stand for node `a` below the parent of `a`, or at the root. -/
def replace (t : SlotTree) (parent : Option Nat) (a b : Nat) : SlotTree :=
  match parent with
  | some p => t.modify p fun n =>
      { n with children := replaceChild a b n.children, queue := replaceChild a b n.queue }
  | none => if t.root = some a then { t with root := some b } else t

def promote (t : SlotTree) (i : Nat) : SlotTree :=
  match t.node? i with
  | some ⟨.junction, parent, [child], _, _, _⟩ =>
      let t := t.modify child fun n => { n with parent := parent }
      (t.replace parent i child).modify i fun n =>
        { n with parent := none, children := [], queue := [] }
  | _ => t

/-- Nodes come after their children, so one pass in ascending order also shortens chains. -/
def collapse (t : SlotTree) : SlotTree := (List.range t.nodes.length).foldl promote t

end SurfaceFabric.SlotTree
