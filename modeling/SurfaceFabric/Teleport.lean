import SurfaceFabric.Rect

/-!
Teleports: stretches of corridor between switches that are bridged in a single cycle. Teleports of the
same cycle that share a switch are merged into one.
-/

namespace SurfaceFabric

/-- The gates served, the switches connected, all cells held, and the ticks they are held over. -/
structure Teleport where
  gates : List Nat
  endpoints : List Cell
  cells : List Cell
  start : Nat
  stop : Nat
  deriving DecidableEq, Repr

/-- The members of `l`, then those of `m` that are new. -/
def appendNew {α : Type} [DecidableEq α] (l m : List α) : List α :=
  m.foldl (fun l a => if a ∈ l then l else l ++ [a]) l

/-- Takes the member at a position out and puts the last one in its place. -/
def swapRemove {α : Type} (l : List α) (i : Nat) : List α :=
  match l.getLast? with
  | none => l
  | some last => (l.set i last).dropLast

theorem swapRemove_length {α : Type} (l : List α) (i : Nat) :
    (swapRemove l i).length = l.length - 1 := by
  unfold swapRemove
  split
  · simp_all [List.getLast?_eq_none_iff]
  · simp

namespace Teleport

def sharesEndpoint (a b : Teleport) : Bool :=
  a.start == b.start && a.stop == b.stop && a.endpoints.any (· ∈ b.endpoints)

def absorb (a b : Teleport) : Teleport :=
  { a with
    gates := appendNew a.gates b.gates
    endpoints := appendNew a.endpoints b.endpoints
    cells := appendNew a.cells b.cells }

/-- Adds a teleport to a list, merged with all that it shares an endpoint with. -/
def record (recorded : List Teleport) (t : Teleport) : List Teleport :=
  match _h : recorded.findIdx? fun r => r.sharesEndpoint t with
  | none => recorded ++ [t]
  | some i =>
      match recorded[i]? with
      | none => recorded ++ [t]
      | some r => record (swapRemove recorded i) (r.absorb t)
termination_by recorded.length
decreasing_by
  have := List.findIdx?_eq_some_iff_findIdx_eq.1 _h
  rw [swapRemove_length]
  omega

end Teleport

end SurfaceFabric
