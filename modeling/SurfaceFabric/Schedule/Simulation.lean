import SurfaceFabric.Schedule

/-!
Simulating a circuit on a number of channels. At each event the waiting gates are offered a start in
order of slack and number: local gates always start, others only while a channel is left, and a gate
on an unbound factory symbol only if a factory of its template is free. Time then moves to the next
completion. Each event completes a gate, so a simulation has no more events than gates.
-/

namespace SurfaceFabric

structure Start where
  node : Nat
  start : Nat
  finish : Nat
  binding : Option Nat
  deriving DecidableEq, Repr

structure Job where
  circuit : Circuit
  slacks : List Nat
  channels : Nat

/-- Where a simulation stands. Starts are in order of admission. -/
structure Moment where
  clock : Nat
  pool : Pool
  started : List Start
  running : List Start
  finished : List Nat

namespace Job

def isNonLocal (job : Job) (n : Nat) : Bool :=
  ((job.circuit.gate? n).map Gate.isNonLocal).getD false

def slack (job : Job) (n : Nat) : Nat := job.slacks[n]?.getD 0

/-- Gates whose dependencies are finished and which have not been started, by slack and number. -/
def waiting (job : Job) (m : Moment) : List Nat :=
  sortBy (fun a b => job.slack a ≤ job.slack b) <| (List.range job.circuit.size).filter fun n =>
    (job.circuit.dependencies n).all (· ∈ m.finished) && m.started.all fun s => s.node != n

/-- Length of a gate started now and the factory it binds, with the pool afterwards; nothing if it
needs a factory and none is free. A production round is shorter by the time its factory was idle. -/
def engage? (pool : Pool) (g : Gate) (t : Nat) : Option (Nat × Option Nat × Pool) :=
  let cycles := max g.cycles 1
  match g.factoryOperand? with
  | none => some (cycles, none, pool)
  | some s =>
      if g.isReset || (pool.binding? s).isSome then some (cycles, none, pool)
      else do
        let (ticket, pool) ← pool.reserve? s
        let pool := pool.commit ticket
        let warm := min (t - (pool.idleSince? ticket.handle).getD t) cycles
        let length := if g.isProduction then max (cycles - warm) 1 else cycles
        return (length, some ticket.handle, pool)

def hasChannel (job : Job) (m : Moment) (g : Gate) : Bool :=
  !g.isNonLocal || (m.running.filter fun s => job.isNonLocal s.node).length < job.channels

def offer (job : Job) (m : Moment) (n : Nat) : Checked Moment :=
  match job.circuit.gate? n with
  | none => return m
  | some g =>
      if !job.hasChannel m g then return m
      else
        match engage? m.pool g m.clock with
        | none => return m
        | some (length, binding, pool) => do
            let finish ← Word.add m.clock length
            let s : Start := ⟨n, m.clock, finish, binding⟩
            return { m with
              pool := pool
              started := m.started ++ [s]
              running := m.running ++ [s] }

def offerAll (job : Job) (m : Moment) : Checked Moment := (job.waiting m).foldlM job.offer m

/-- A completed reset gives its factory back. -/
def settle (job : Job) (t : Nat) (pool : Pool) (s : Start) : Pool :=
  match job.circuit.gate? s.node with
  | none => pool
  | some g =>
      if g.isReset then (g.factoryOperand?.map (pool.free · t)).getD pool else pool

def nextDue (m : Moment) : Nat × List Start :=
  let t := (m.running.map Start.finish).min?.getD m.clock
  (t, sortBy (fun a b => a.node ≤ b.node) (m.running.filter fun s => s.finish == t))

def simulateFrom (job : Job) (m : Moment) : Outcome Deadlock Moment :=
  if _h : m.finished.length < job.circuit.size then
    match job.offerAll m with
    | .error f => .error (.fault f)
    | .ok next =>
        match nextDue next with
        | (_, []) => Outcome.refuse ⟨m.clock, (job.waiting next).length⟩
        | (t, s :: due) =>
            job.simulateFrom {
              clock := t
              pool := (s :: due).foldl (job.settle t) next.pool
              started := next.started
              running := next.running.filter fun r => r.finish != t
              finished := m.finished ++ (s :: due).map Start.node }
  else .ok m
termination_by job.circuit.size - m.finished.length
decreasing_by
  simp only [List.map_cons, List.length_append, List.length_cons]
  omega

def startOf? (m : Moment) (n : Nat) : Option Start := m.started.find? fun s => s.node == n

def scheduleOf (job : Job) (m : Moment) : Schedule :=
  let table := (List.range job.circuit.size).map fun n => (startOf? m n).getD ⟨n, 0, 0, none⟩
  let cycles := (table.map Start.finish).max?.getD 0
  { cycles := cycles
    channels := job.channels
    layers := layersOf cycles (m.started.map fun s => (s.node, s.start))
    starts := table.map Start.start
    ends := table.map Start.finish
    bindings := table.map Start.binding }

def simulate (job : Job) (pool : Pool) : Outcome Deadlock Schedule := do
  let m ← job.simulateFrom ⟨0, pool, [], [], []⟩
  return job.scheduleOf m

end Job

end SurfaceFabric
