/-!
Classes of the numbers below a bound, merged pair by pair. Every class has a leader; the leader of a
merged class is the one of higher rank, and of two equal ones the first.
-/

namespace SurfaceFabric

/-- The leader of every member, and the rank of every leader. -/
structure Classes where
  leaders : List Nat
  ranks : List Nat
  deriving DecidableEq, Repr

namespace Classes

def ofSize (n : Nat) : Classes := ⟨List.range n, List.replicate n 0⟩

def leader (c : Classes) (i : Nat) : Nat := c.leaders[i]?.getD i

def rank (c : Classes) (i : Nat) : Nat := c.ranks[i]?.getD 0

/-- Puts the class of leader `b` under leader `a`. -/
def relabel (c : Classes) (a b : Nat) : Classes :=
  { c with leaders := c.leaders.map fun l => if l = b then a else l }

def merge (c : Classes) (i j : Nat) : Classes :=
  let a := c.leader i
  let b := c.leader j
  if a = b then c
  else if c.rank a < c.rank b then c.relabel b a
  else if c.rank b < c.rank a then c.relabel a b
  else { c.relabel a b with ranks := c.ranks.set a (c.rank a + 1) }

def roots (c : Classes) : List Nat :=
  (List.range c.leaders.length).filter fun i => c.leader i == i

@[simp] theorem leaders_length_merge (c : Classes) (i j : Nat) :
    (c.merge i j).leaders.length = c.leaders.length := by
  unfold merge relabel
  dsimp only
  split
  · rfl
  · split
    · simp
    · split <;> simp

end Classes

end SurfaceFabric
