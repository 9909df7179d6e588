import SurfaceFabric.Ascending
import SurfaceFabric.Classes
import SurfaceFabric.Tiling

/-!
Access graphs: which segments of a tiling can be reached from which. Routing segments that touch are
linked; a register or I/O segment is reached from routing above or below it, a factory from any side.
Only the component with the most routing counts.
-/

namespace SurfaceFabric

/-- Segments in ascending order, and pairs of linked ones with the smaller number first. -/
structure AccessGraph where
  vertices : List Segment
  edges : List (Nat × Nat)
  deriving Repr

/-- Whether a path may step from routing into a segment that lies on a vertical or horizontal side. -/
def Role.isEntered (role : Role) (vertical : Bool) : Bool :=
  match role with
  | .register | .io => vertical
  | .factory _ => true
  | _ => false

def Role.connects (a b : Role) (vertical : Bool) : Bool :=
  match a.isRoute, b.isRoute with
  | true, true => true
  | true, false => b.isEntered vertical
  | false, true => a.isEntered vertical
  | false, false => false

namespace AccessGraph

/-- Links from a segment to segments with larger numbers. -/
def edgesFrom (vertices : List Segment) (s : Segment) : List (Nat × Nat) :=
  s.allNeighbours.filterMap fun (side, n) => do
    let u ← vertices.find? fun u => u.id == n
    if s.id < n ∧ s.role.connects u.role side.isVertical then some (s.id, n) else none

def ofTiling (t : Tiling) : AccessGraph :=
  let vertices := t.segments.filter fun s => s.role.isRoute || s.role.isTerminal
  ⟨vertices, vertices.flatMap (edgesFrom vertices)⟩

def position (g : AccessGraph) (id : Nat) : Nat := g.vertices.findIdx fun s => s.id == id

def neighbours (g : AccessGraph) (id : Nat) : List Nat :=
  g.edges.filterMap fun (a, b) => if a = id then some b else if b = id then some a else none

def components (g : AccessGraph) : Classes :=
  g.edges.foldl (fun c e => c.merge (g.position e.1) (g.position e.2)) (.ofSize g.vertices.length)

/-- Number of routing segments in the component of a leader. -/
def routeCount (g : AccessGraph) (c : Classes) (leader : Nat) : Nat :=
  (g.vertices.zipIdx.filter fun (s, i) => s.role.isRoute && c.leader i == leader).length

/-- The leader whose component has the most routing; of equals the smallest. -/
def mainLeader? (g : AccessGraph) (c : Classes) : Option Nat :=
  let counts := (c.roots.map fun l => (g.routeCount c l, l)).filter fun p => 0 < p.1
  (extreme? (fun a b => b.1 < a.1 || (a.1 == b.1 && a.2 < b.2)) counts).map Prod.snd

def main? (g : AccessGraph) : Option (List Segment) :=
  let c := g.components
  (g.mainLeader? c).map fun leader =>
    (g.vertices.zipIdx.filter fun (_, i) => c.leader i == leader).map Prod.fst

end AccessGraph

end SurfaceFabric
