import SurfaceFabric.Circuit.Slack
import SurfaceFabric.Routing.Admission

/-!
Routing a whole circuit tick by tick. At each tick finished gates give back what they hold, and gates
whose dependencies are finished are admitted in order of scheduled start, slack and number. The clock
then moves on: to the next tick where something can change while gates are running, and by single ticks
while none is. Too many idle ticks in a row are a deadlock.
-/

namespace SurfaceFabric

structure RoutingState where
  clock : Nat
  stalled : Nat
  fabric : Fabric
  routes : List Route
  running : List Route
  finished : List Nat

namespace RoutingJob

/-- A gate that ends drops its locks, and a reset gives its factory back. -/
def complete (job : RoutingJob) (f : Fabric) (r : Route) : Fabric :=
  let f := { f with grid := f.grid.release r.gate }
  match job.circuit.gate? r.gate with
  | none => f
  | some g =>
      if g.isReset then
        (g.factoryOperand?.map fun s => f.withPool (f.mapping.pool.free s r.finish)).getD f
      else f

/-- Running gates that have ended, by end and number. -/
def due (s : RoutingState) : List Route :=
  sortBy (fun a b => a.finish < b.finish || (a.finish == b.finish && a.gate ≤ b.gate))
    (s.running.filter fun r => r.finish ≤ s.clock)

def completeDue (job : RoutingJob) (s : RoutingState) : RoutingState :=
  let ended := due s
  { s with
    fabric := ended.foldl job.complete s.fabric
    running := s.running.filter fun r => s.clock < r.finish
    finished := s.finished ++ ended.map Route.gate }

def order (job : RoutingJob) (slacks : List Nat) (a b : Nat) : Bool :=
  let start (n : Nat) := (job.schedule.start? n).getD Word.top
  let slack (n : Nat) := slacks[n]?.getD 0
  start a < start b || (start a == start b &&
    (slack a < slack b || (slack a == slack b && a ≤ b)))

def ready (job : RoutingJob) (slacks : List Nat) (s : RoutingState) : List Nat :=
  sortBy (job.order slacks) <| (List.range job.circuit.size).filter fun n =>
    (job.circuit.dependencies n).all (· ∈ s.finished) && s.routes.all fun r => r.gate != n

/-- Offers admission to gates in order, up to the first that is refused for good. -/
def admitAll (job : RoutingJob) : List Nat → RoutingState →
    Checked (RoutingState × Except CompileError Unit)
  | [], s => return (s, .ok ())
  | n :: rest, s => do
      match ← job.tryRoute s.fabric n s.clock with
      | (f, .error e) => return ({ s with fabric := f }, .error e)
      | (f, .ok none) => job.admitAll rest { s with fabric := f }
      | (f, .ok (some r)) =>
          job.admitAll rest { s with
            fabric := f, routes := s.routes ++ [r], running := s.running ++ [r] }

/-- How the clock moves while gates are running: from the grid, the tick and the next completion. -/
abbrev Pace := LockGrid → Nat → Nat → Nat

/-- To the next completion, or to the next start or stop of a lock if that is earlier. -/
def jump : Pace := fun grid t finish => ((grid.nextBoundary? t).map (min · finish)).getD finish

def routingOf (s : RoutingState) : Routing :=
  let cycles := (s.routes.map Route.finish).max?.getD 0
  { cycles := cycles
    routes := s.routes
    layers := layersOf cycles (s.routes.map fun r => (r.gate, r.start))
    teleports := s.fabric.teleports }

/-- The next tick and the idle ticks so far; a deadlock if there are too many. -/
def advance (job : RoutingJob) (pace : Pace) (slacks : List Nat) (s : RoutingState)
    (progressed : Bool) : Outcome Deadlock (Nat × Nat) :=
  match (s.running.map Route.finish).min? with
  | some finish => return (pace s.fabric.grid s.clock finish, 0)
  | none => do
      let stalled ← if progressed then pure 0 else Word.add s.stalled 1
      if job.settings.deadlockThreshold < stalled then
        Outcome.refuse ⟨s.clock, (job.ready slacks s).length⟩
      return (← Word.add s.clock 1, stalled)

/-- Runs until all gates are finished. The clock must move on within the word. -/
def runFrom (job : RoutingJob) (pace : Pace) (slacks : List Nat) (s : RoutingState) :
    Checked (Fabric × Except CompileError Routing) :=
  if s.finished.length < job.circuit.size then do
    let s' := job.completeDue s
    match ← job.admitAll (job.ready slacks s') s' with
    | (s'', .error e) => return (s''.fabric, .error e)
    | (s'', .ok ()) =>
        if s''.finished.length = job.circuit.size then return (s''.fabric, .ok (routingOf s''))
        else
          let progressed :=
            s.finished.length < s''.finished.length || s'.routes.length < s''.routes.length
          match ← (job.advance pace slacks s'' progressed).settle with
          | .error d => return (s''.fabric, .error (.deadlock d))
          | .ok (t, stalled) =>
              if s.clock < t ∧ t ≤ Word.top then
                job.runFrom pace slacks { s'' with clock := t, stalled := stalled }
              else .error .overflow
  else return (s.fabric, .ok (routingOf s))
termination_by Word.top - s.clock
decreasing_by
  omega

end RoutingJob

/-- Routing cells where corridors branch. -/
def LockGrid.switches (g : LockGrid) (settings : TeleportSettings) : List Cell :=
  g.routeCells.filter fun c => settings.minSwitchNeighbours ≤ g.routeDegree c

def RoutingJob.start (c : Circuit) (l : Layout) (m : Mapping) (schedule : Schedule)
    (settings : RoutingSettings) : Checked (RoutingJob × Fabric) := do
  let grid ← LockGrid.ofLayout l
  return (⟨c, schedule, settings, grid.switches settings.teleport⟩, ⟨grid, m, []⟩)

/-- Routes a circuit; gives the fabric as the run leaves it, whether it succeeds or not. -/
def RoutingJob.run (job : RoutingJob) (f : Fabric) :
    Checked (Fabric × Except CompileError Routing) := do
  job.runFrom RoutingJob.jump (← job.circuit.slacks) ⟨0, 0, f, [], [], []⟩

end SurfaceFabric
