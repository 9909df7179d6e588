import SurfaceFabric.Circuit

/-!
Slack: how many layers a gate can slip without making the circuit deeper. It is the depth less one,
less the gate's layer, less the longest chain of dependents below it.
-/

namespace SurfaceFabric.Circuit

/-- Longest chains of dependents below each of `nodes`, the first of which has number `n`.
Dependents come later in the list, so their chains are known when a node is reached. -/
def tailsFrom : Nat → List Node → List Nat
  | _, [] => []
  | n, _ :: rest =>
      let below := tailsFrom (n + 1) rest
      let longer := (rest.zip below).filterMap fun (later, tail) =>
        if n ∈ later.dependencies then some (tail + 1) else none
      longer.max?.getD 0 :: below

@[simp] theorem tailsFrom_length (n : Nat) (nodes : List Node) :
    (tailsFrom n nodes).length = nodes.length := by
  induction nodes generalizing n with
  | nil => rfl
  | cons node rest ih => simp [tailsFrom, ih]

def tails (c : Circuit) : List Nat := tailsFrom 0 c.nodes

def slackOf (depth layer tail : Nat) : Checked Nat := do
  Word.sub (← Word.sub (depth - 1) layer) tail

def slacks (c : Circuit) : Checked (List Nat) :=
  (c.nodes.zip c.tails).mapM fun (node, tail) => slackOf c.depth node.layer tail

def slack (c : Circuit) (n : Nat) : Checked (Except CircuitError Nat) := do
  let table ← c.slacks
  return match table[n]? with
    | some k => .ok k
    | none => .error .unknownNode

end SurfaceFabric.Circuit
