import SurfaceFabric.SlotTree.Cluster

/-!
The slot tree of a layout. A routing segment shares a weight of one among its leaves, and a leaf hangs
off the routing segment that gives it most. Inner nodes weigh as much as their children.
-/

namespace SurfaceFabric.SlotTree

/-- The leaf for a segment; none for a factory that the layout does not know. -/
def leafKind? (l : Layout) (s : Segment) : Option SlotNodeKind :=
  match s.role with
  | .register => some (.cells s.id .register s.rect.cells)
  | .io => some (.cells s.id .io s.rect.cells)
  | .factory handle => do
      let u ← l.unit? handle
      let entrance ← l.entrance? handle
      return .factory s.id handle u.template entrance false
  | _ => none

def leafCount (g : AccessGraph) (routes : List Nat) (id : Nat) : Nat :=
  max ((g.neighbours id).filter (· ∉ routes)).length 1

/-- Routing segments next to a leaf with their leaf counts; those that give most come first. -/
def accesses (g : AccessGraph) (routes : List Nat) (id : Nat) : List (Nat × Nat) :=
  sortBy (fun a b => a.1 < b.1 || (a.1 == b.1 && a.2 ≤ b.2))
    (((g.neighbours id).filter (· ∈ routes)).map fun r => (leafCount g routes r, r))

def addLeaf (l : Layout) (g : AccessGraph) (routes : List Nat) (t : SlotTree) (s : Segment) :
    SlotTree :=
  match accesses g routes s.id, leafKind? l s with
  | (n, r) :: rest, some kind =>
      let weight := (((n, r) :: rest).map fun a => 1 / a.1.toFloat).foldl (· + ·) 0
      (t.push (.isolated kind weight)).attach (routes.findIdx (· == r)) t.nodes.length
  | _, _ => t

def levels (t : SlotTree) : Nat → List Nat → List Nat
  | 0, _ => []
  | _, [] => []
  | n + 1, ids => ids ++ t.levels n (ids.flatMap t.children)

/-- Sets weight and free counts of a node from its children's. -/
def settle (t : SlotTree) (i : Nat) : SlotTree :=
  match t.node? i with
  | none => t
  | some n =>
      if n.isLeaf then t.modify i fun n => { n with free := n.kind.offers }
      else t.modify i fun n => { n with
        weight := (n.children.map t.weight).foldl (· + ·) 0
        free := (n.children.map t.tally).foldl Tally.union .empty }

/-- Settles all nodes below the root, lowest levels first. -/
def accumulate (t : SlotTree) : SlotTree :=
  match t.root with
  | none => t
  | some root => (t.levels t.nodes.length [root]).reverse.foldl settle t

def build (l : Layout) : SlotTree :=
  let g := AccessGraph.ofTiling l.tiling
  match g.main? with
  | none => empty
  | some main =>
      let routes := (main.filter fun s => s.role.isRoute).map Segment.id
      let t := routes.foldl (fun t r => t.push (.isolated (.route r) 0)) empty
      let t := (main.filter fun s => !s.role.isRoute).foldl (addLeaf l g routes) t
      let c := Clustering.rounds g routes routes.length (.start t routes.length)
      c.rooted.collapse.accumulate

end SurfaceFabric.SlotTree
