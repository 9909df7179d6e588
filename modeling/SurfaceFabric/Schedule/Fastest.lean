import SurfaceFabric.Schedule.Simulation

/-!
Scheduling within a channel budget. A greedy simulation may end later with more channels, so every
cap from one channel up to the budget is tried and the fastest schedule kept; of equals the one with
the larger cap. Caps beyond the number of non-local gates change nothing and are left out.
-/

namespace SurfaceFabric.Schedule

def nonLocalCount (c : Circuit) : Nat := (c.nodes.filter fun node => node.gate.isNonLocal).length

/-- The fastest schedule so far, or else the last failure. -/
def better (best next : Except Deadlock Schedule) : Except Deadlock Schedule :=
  match best, next with
  | .ok b, .ok s => if s.cycles ≤ b.cycles then .ok s else .ok b
  | .ok b, .error _ => .ok b
  | .error _, next => next

def simulateCap (c : Circuit) (pool : Pool) (slacks : List Nat) (channels : Nat) :
    Checked (Except Deadlock Schedule) :=
  (Job.simulate ⟨c, slacks, channels⟩ pool).settle

/-- Tries the caps after the first up to `n + 1`. -/
def tryCaps (c : Circuit) (pool : Pool) (slacks : List Nat) (n : Nat) :
    Checked (Except Deadlock Schedule) := do
  let first ← simulateCap c pool slacks 1
  (List.range n).foldlM
    (fun best k => return better best (← simulateCap c pool slacks (k + 2))) first

def ofCircuit (c : Circuit) (pool : Pool) (budget : Nat) : Outcome Deadlock Schedule := do
  let slacks ← c.slacks
  let widest := max (min (max budget 1) (nonLocalCount c)) 1
  match ← tryCaps c pool slacks (widest - 1) with
  | .ok s => return s
  | .error e => Outcome.refuse e

end SurfaceFabric.Schedule
