import SurfaceFabric.Mapping
import SurfaceFabric.PathSearch
import SurfaceFabric.Routing

/-!
Admitting one gate at a tick. Its operands need cells, its factories are reserved, and a path must lead
from each operand to the next through cells that are free for the whole gate. If anything is missing,
all reservations are taken back. A long route that crosses two switches or more holds the stretch
between them for one cycle only.
-/

namespace SurfaceFabric

structure RoutingJob where
  circuit : Circuit
  schedule : Schedule
  settings : RoutingSettings
  switches : List Cell

structure Fabric where
  grid : LockGrid
  mapping : Mapping
  teleports : List Teleport

def Fabric.withPool (f : Fabric) (pool : Pool) : Fabric :=
  { f with mapping := { f.mapping with pool := pool } }

def Fabric.rollback (f : Fabric) (tickets : List Ticket) : Fabric :=
  f.withPool (f.mapping.pool.releaseAll tickets)

/-- The operands of a gate: their cells with the reservations made for them, or why it has to wait. -/
inductive Operands
  | found (cells : List Cell)
  | lacking
  | unmapped (s : Symbol)
  deriving DecidableEq, Repr

/-- The locks of a route: full ones, teleports, and locks on the ends of teleports. -/
structure LockPlan where
  locks : List CellLock
  teleports : List Teleport
  ends : List CellLock
  deriving DecidableEq, Repr

namespace RoutingJob

/-- Reserves a factory for a symbol, if possible the one that the schedule bound. -/
def reserve? (job : RoutingJob) (pool : Pool) (node : Nat) (s : Symbol) : Option (Ticket × Pool) :=
  ((job.schedule.binding? node).bind (pool.reserveHandle? s)).or (pool.reserve? s)

/-- Finds the cells of operands in order; gives the tickets and the mapping too. An unbound factory
that is reset has no cell and needs none. -/
def resolve (job : RoutingJob) (node : Nat) (isReset : Bool) :
    List Symbol → List Cell → List Ticket → Mapping → Operands × List Ticket × Mapping
  | [], cells, tickets, m => (.found cells, tickets, m)
  | s :: rest, cells, tickets, m =>
      match m.coordinate? s with
      | some c => job.resolve node isReset rest (cells ++ [c]) tickets m
      | none =>
          if !s.isFactory then (.unmapped s, tickets, m)
          else if isReset then job.resolve node isReset rest cells tickets m
          else
            match job.reserve? m.pool node s with
            | none => (.lacking, tickets, m)
            | some (ticket, pool) =>
                let m := { m with pool := pool }
                match pool.entrance? ticket.handle with
                | some entrance =>
                    job.resolve node isReset rest (cells ++ [entrance]) (tickets ++ [ticket]) m
                | none => (.lacking, tickets ++ [ticket], m)

def window (job : RoutingJob) (start stop : Nat) : Nat × Nat :=
  match job.settings.teleport.policy with
  | .asap => (start, start + 1)
  | .alap => (stop - 1, stop)

def sharedEndpoints (f : Fabric) (window : Nat × Nat) : List Cell :=
  (f.teleports.filter fun t => t.start == window.1 && t.stop == window.2).flatMap Teleport.endpoints

/-- A path between two operands: a strict one, or else one that may use relaxed switches. -/
def leg? (job : RoutingJob) (grid : LockGrid) (shared : List Cell) (start stop : Nat)
    (blocked : List Cell) (a b : Cell) : Option (List Cell) :=
  let strict : PathQuery := ⟨grid, start, stop, blocked, none⟩
  (PathSearch.find? strict a b).or <|
    if job.settings.teleport.enabled then
      let (first, last) := job.window start stop
      PathSearch.find? { strict with relaxed := some ⟨job.switches, shared, first, last⟩ } a b
    else none

/-- Legs from each operand to the next. The other operands and the cells of earlier legs are blocked.
Two neighbouring operands on one cell leave no leg between them, which is a fault. -/
def legs (job : RoutingJob) (grid : LockGrid) (shared : List Cell) (start stop : Nat) :
    List Cell → List Cell → Checked (Option (List (List Cell)))
  | blocked, a :: b :: rest =>
      let blocked := blocked.filter fun c => c ≠ a ∧ c ≠ b
      match job.leg? grid shared start stop blocked a b with
      | none => return none
      | some leg =>
          if leg.length < 2 then .error .sharedCell
          else do
            let later ← job.legs grid shared start stop (blocked ++ leg) (b :: rest)
            return later.map (leg :: ·)
  | _, _ => return some []

def interior (leg : List Cell) : List Cell := leg.tail.dropLast

def pathOf (cells : List Cell) (legs : List (List Cell)) : List Cell :=
  cells.head?.toList ++ legs.flatMap List.tail

/-- Positions of the first and the last switch of a leg, if they are two. -/
def span? (job : RoutingJob) (inner : List Cell) : Option (Nat × Nat) := do
  let positions := (inner.zipIdx.filter fun p => p.1 ∈ job.switches).map Prod.snd
  let first ← positions.head?
  let last ← positions.getLast?
  if first < last then some (first, last) else none

def planLeg (job : RoutingJob) (node start stop : Nat) (teleporting : Bool) (inner : List Cell) :
    LockPlan :=
  let whole (c : Cell) : CellLock := ⟨c, start, stop⟩
  match (if teleporting then job.span? inner else none) with
  | none => ⟨inner.map whole, [], []⟩
  | some (i, j) =>
      let (first, last) := job.window start stop
      let brief (c : Cell) : CellLock := ⟨c, first, last⟩
      let bridged := (inner.take (j + 1)).drop i
      ⟨(inner.take i).map whole ++ bridged.tail.dropLast.map brief ++ (inner.drop (j + 1)).map whole,
        [⟨[node], bridged.filter (· ∈ job.switches), bridged, first, last⟩],
        (bridged.head?.toList ++ bridged.getLast?.toList).map brief⟩

/-- Locks of a whole gate. Only routes that are long enough teleport. -/
def planLocks (job : RoutingJob) (node start stop : Nat) (cells : List Cell)
    (inners : List (List Cell)) : LockPlan :=
  let length := inners.flatten.length
  let teleporting := job.settings.teleport.enabled && job.settings.teleport.minRouteLength ≤ length
  let plans := inners.map (job.planLeg node start stop teleporting)
  ⟨(cells.map fun c => ⟨c, start, stop⟩) ++ plans.flatMap LockPlan.locks,
    plans.flatMap LockPlan.teleports, plans.flatMap LockPlan.ends⟩

/-- Whether all locks of a plan can be had; the ends of teleports may be shared. -/
def isFeasible (grid : LockGrid) (shared : List Cell) (plan : LockPlan) : Bool :=
  (plan.locks.all fun l => grid.isFree l.cell l.start l.stop) &&
    plan.ends.all fun l => grid.isFree l.cell l.start l.stop || l.cell ∈ shared

def commit (f : Fabric) (node : Nat) (tickets : List Ticket) (plan : LockPlan) : Fabric :=
  let hold (l : CellLock) : Hold := ⟨l.cell, ⟨node, l.start, l.stop⟩⟩
  { grid := ((plan.locks ++ plan.ends).map hold).foldl LockGrid.hold f.grid
    mapping := { f.mapping with pool := f.mapping.pool.commitAll tickets }
    teleports := plan.teleports.foldl Teleport.record f.teleports }

def plan? (job : RoutingJob) (f : Fabric) (node start stop : Nat) (cells : List Cell) :
    Checked (Option (List Cell × LockPlan)) := do
  if !cells.all fun c => f.grid.isFree c start stop then return none
  let shared := sharedEndpoints f (job.window start stop)
  let some legs ← job.legs f.grid shared start stop cells cells | return none
  let plan := job.planLocks node start stop cells (legs.map interior)
  return if isFeasible f.grid shared plan then some (pathOf cells legs, plan) else none

/-- Tries to admit a gate at a tick. Nothing is held if it has to wait or cannot be mapped. -/
def tryRoute (job : RoutingJob) (f : Fabric) (node t : Nat) :
    Checked (Fabric × Except CompileError (Option Route)) := do
  let some g := job.circuit.gate? node | return (f, .error (.circuit .unknownNode))
  let stop ← Word.add t (max g.cycles 1)
  let (operands, tickets, m) := job.resolve node g.isReset g.operands [] [] f.mapping
  let f := { f with mapping := m }
  match operands with
  | .unmapped s => return (f.rollback tickets, .error (.unmapped s))
  | .lacking => return (f.rollback tickets, .ok none)
  | .found cells =>
      match ← job.plan? f node t stop cells with
      | none => return (f.rollback tickets, .ok none)
      | some (path, plan) =>
          return (commit f node tickets plan,
            .ok (some ⟨node, t, stop, path, plan.teleports, plan.locks ++ plan.ends⟩))

end RoutingJob

end SurfaceFabric
