import SurfaceFabric.Ascending
import SurfaceFabric.Gate

/-!
Circuits as dependency graphs. Gates are appended in program order, and a gate depends on the most
recent earlier gate on each of its operands, so every dependency points to a smaller node number.
The uses of symbols are kept in order of first appearance with the last node that used each.
-/

namespace SurfaceFabric

structure Node where
  gate : Gate
  layer : Nat
  dependencies : List Nat
  deriving DecidableEq, Repr

structure Circuit where
  nodes : List Node
  lastUses : List (Symbol × Nat)
  deriving DecidableEq, Repr

def firstRepeated : List Symbol → List Symbol → Option Symbol
  | _, [] => none
  | seen, s :: rest => if s ∈ seen then some s else firstRepeated (s :: seen) rest

/-- Notes node `n` as the last use of `s`, keeping the order of first appearance. -/
def noteUse (n : Nat) : List (Symbol × Nat) → Symbol → List (Symbol × Nat)
  | [], s => [(s, n)]
  | (t, m) :: rest, s => if t = s then (t, n) :: rest else (t, m) :: noteUse n rest s

namespace Circuit

def empty : Circuit := ⟨[], []⟩

def size (c : Circuit) : Nat := c.nodes.length

def node? (c : Circuit) (n : Nat) : Option Node := c.nodes[n]?

def gate? (c : Circuit) (n : Nat) : Option Gate := (c.node? n).map Node.gate

def lastUse? (c : Circuit) (s : Symbol) : Option Nat := c.lastUses.lookup s

def objection? (g : Gate) : Option CircuitError :=
  if g.operands.isEmpty then some (.noOperands g.name)
  else if g.cycles = 0 then some (.noCycles g.name)
  else if g.isReset && !(g.operands.length == 1 && g.operands.all Symbol.isFactory) then
    some (.badReset g.operands)
  else (firstRepeated [] g.operands).map (.repeatedOperand · g.name)

def dependenciesOf (c : Circuit) (g : Gate) : List Nat :=
  sortedSet (g.operands.filterMap c.lastUse?)

def layerAfter (c : Circuit) (dependencies : List Nat) : Nat :=
  (dependencies.map fun p => ((c.node? p).map Node.layer).getD 0 + 1).max?.getD 0

def append (c : Circuit) (g : Gate) : Circuit :=
  let dependencies := c.dependenciesOf g
  { nodes := c.nodes ++ [⟨g, c.layerAfter dependencies, dependencies⟩]
    lastUses := g.operands.foldl (noteUse c.size) c.lastUses }

def add (c : Circuit) (g : Gate) : Except CircuitError Circuit :=
  match objection? g with
  | some e => .error e
  | none => .ok (c.append g)

/-- Adds gates in order; stops at the first one that is not accepted and gives its position. -/
def addAll (c : Circuit) : Nat → List Gate → Except (Nat × CircuitError) Circuit
  | _, [] => .ok c
  | i, g :: rest =>
      match c.add g with
      | .error e => .error (i, e)
      | .ok c => c.addAll (i + 1) rest

def ofGates (gates : List Gate) : Except (Nat × CircuitError) Circuit := empty.addAll 0 gates

def dependencies (c : Circuit) (n : Nat) : List Nat :=
  ((c.node? n).map Node.dependencies).getD []

def dependents (c : Circuit) (n : Nat) : List Nat :=
  (List.range c.size).filter fun m => n ∈ c.dependencies m

def roots (c : Circuit) : List Nat :=
  (List.range c.size).filter fun n => (c.dependencies n).isEmpty

def depth (c : Circuit) : Nat := (c.nodes.map fun node => node.layer + 1).max?.getD 0

def layer (c : Circuit) (n : Nat) : Except CircuitError Nat :=
  match c.node? n with
  | some node => .ok node.layer
  | none => .error .unknownNode

def layers (c : Circuit) : List (List Nat) :=
  (List.range c.depth).map fun l =>
    (List.range c.size).filter fun n => (c.node? n).map Node.layer == some l

/-- Register and I/O symbols in order of first appearance. -/
def symbols (c : Circuit) : List Symbol :=
  (c.lastUses.map Prod.fst).filter fun s => !s.isFactory

def registerCount (c : Circuit) : Nat := (c.symbols.filter fun s => !s.isIo).length

def ioCount (c : Circuit) : Nat := (c.symbols.filter Symbol.isIo).length

def firsts (l : List String) : List String :=
  l.foldl (fun seen s => if s ∈ seen then seen else seen ++ [s]) []

def templates (c : Circuit) : List String :=
  firsts (c.lastUses.filterMap fun u => u.1.template?)

end Circuit

end SurfaceFabric
