import SurfaceFabric.Placement
import SurfaceFabric.Schedule.Fastest

/-!
Climbing from plan to plan. A layout is scored by the length of its schedule. Each round tries one more
lane and one more factory of each template, and moves to the first of the fastest candidates if it is
strictly faster. Candidates that cannot be placed or scheduled do not count.
-/

namespace SurfaceFabric

structure Proposal where
  plan : Plan
  layout : Layout
  cycles : Nat
  deriving DecidableEq, Repr

namespace Proposal

/-- Cycles of a layout's fastest schedule. -/
def evaluate (c : Circuit) (l : Layout) : Outcome CompileError Nat := do
  let s ← (Schedule.ofCircuit c (.ofLayout l) l.channels).mapRefusal .deadlock
  return s.cycles

def ofPlan (c : Circuit) (height width : Nat) (plan : Plan) : Outcome CompileError Proposal := do
  let l ← (Layout.place c height width plan).mapRefusal .placement
  return ⟨plan, l, ← evaluate c l⟩

def candidates (plan : Plan) : Checked (List Plan) := do
  return (← plan.withLane) :: plan.templates.map plan.withFactory

def improve (c : Circuit) (height width : Nat) (best : Proposal) (plan : Plan) :
    Checked Proposal := do
  match ← (ofPlan c height width plan).toOption with
  | some p => return if p.cycles < best.cycles then p else best
  | none => return best

/-- At most `n` strictly improving rounds. -/
def climb (c : Circuit) (height width : Nat) : Nat → Proposal → Checked Proposal
  | 0, best => return best
  | n + 1, best => do
      let next ← (← candidates best.plan).foldlM (improve c height width) best
      if next.cycles < best.cycles then climb c height width n next else return best

def optimise (c : Circuit) (height width : Nat) (plan : Plan) (rounds : Nat) :
    Outcome CompileError Proposal := do
  climb c height width rounds (← ofPlan c height width plan)

end Proposal

end SurfaceFabric
