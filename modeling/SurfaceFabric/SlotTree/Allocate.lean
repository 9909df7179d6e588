import SurfaceFabric.SlotTree

/-!
Handing out slots. A request goes down from the root, at each node to the heaviest child that has a free
slot of the wanted kind; of equals to the first in the queue. A child that still has such a slot then
moves to the front of the queue, and one that has not to the back.
-/

namespace SurfaceFabric.SlotTree

def heaviest? (t : SlotTree) (kind : SlotKind) : List Nat → Option Nat
  | [] => none
  | c :: rest =>
      match decide (0 < t.free c kind), t.heaviest? kind rest with
      | false, later => later
      | true, none => some c
      | true, some d => if t.weight c < t.weight d then some d else some c

/-- The nodes from `i` down to the leaf that serves a request. -/
def descend (t : SlotTree) (kind : SlotKind) : Nat → Nat → Option (List Nat)
  | 0, _ => none
  | n + 1, i => do
      let node ← t.node? i
      if node.isLeaf then return [i]
      let child ← t.heaviest? kind node.queue
      return i :: (← t.descend kind n child)

def hand? : SlotNodeKind → Option (Slot × SlotNodeKind)
  | .cells segment kind (c :: left) => some (⟨c, none⟩, .cells segment kind left)
  | .factory segment handle template entrance _ =>
      some (⟨entrance, some handle⟩, .factory segment handle template entrance true)
  | _ => none

/-- Moves a child to the front or to the back of its parent's queue. -/
def requeue (kind : SlotKind) (t : SlotTree) (step : Nat × Nat) : SlotTree :=
  t.modify step.1 fun n =>
    let others := n.queue.erase step.2
    { n with queue := if 0 < t.free step.2 kind then step.2 :: others else others ++ [step.2] }

def alloc? (t : SlotTree) (kind : SlotKind) : Option (Slot × SlotTree) := do
  if t.capacity kind = 0 then none
  let root ← t.root
  let path ← t.descend kind t.nodes.length root
  let leaf ← path.getLast?
  let node ← t.node? leaf
  let (slot, rest) ← hand? node.kind
  let t := t.modify leaf fun n => { n with kind := rest }
  let t := path.foldl (fun t i => t.modify i (.spend kind)) t
  return (slot, (path.zip path.tail).foldl (requeue kind) t)

def ancestors (t : SlotTree) : Nat → Nat → List Nat
  | 0, _ => []
  | n + 1, i => i :: (((t.node? i).bind SlotNode.parent).map (t.ancestors n)).getD []

def offersCell? (c : Cell) (n : SlotNode) : Option SlotKind :=
  match n.kind with
  | .cells _ kind left => if c ∈ left then some kind else none
  | _ => none

def withoutCell (c : Cell) : SlotNodeKind → SlotNodeKind
  | .cells segment kind left => .cells segment kind (left.filter (· ≠ c))
  | k => k

/-- Takes a particular cell out of circulation, if some leaf still offers it. -/
def take? (t : SlotTree) (c : Cell) : Option SlotTree := do
  let leaf ← t.nodes.findIdx? fun n => (offersCell? c n).isSome
  let kind ← (t.node? leaf).bind (offersCell? c)
  let t := t.modify leaf fun n => { n with kind := withoutCell c n.kind }
  return (t.ancestors t.nodes.length leaf).foldl (fun t i => t.modify i (.spend kind)) t

def drain (kind : SlotKind) : Nat → SlotTree → List Slot × SlotTree
  | 0, t => ([], t)
  | n + 1, t =>
      match t.alloc? kind with
      | none => ([], t)
      | some (slot, t) =>
          let (slots, t) := drain kind n t
          (slot :: slots, t)

end SurfaceFabric.SlotTree
