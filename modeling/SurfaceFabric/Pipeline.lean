import SurfaceFabric.Notes
import SurfaceFabric.Optimise
import SurfaceFabric.Routing.Run

/-!
Stages of a compilation, run one after another on shared artifacts. A stage reads what earlier ones have
left and adds its own. A stage that is refused ends the run; what the stages have left by then stays.
-/

namespace SurfaceFabric

structure Artifacts where
  settings : Option Settings := none
  plan : Option Plan := none
  layout : Option Layout := none
  mapping : Option Mapping := none
  schedule : Option Schedule := none
  routing : Option Routing := none
  notes : Notes := {}

def Part.need {α : Type} (part : Part) : Option α → Outcome CompileError α :=
  Outcome.ofOption (.missing part)

/-- An analysis derives facts, a synthesis makes a part of the result. -/
inductive StageKind
  | analysis
  | synthesis
  deriving DecidableEq, Repr

abbrev StageResult := Checked (Artifacts × Except CompileError Unit)

structure Stage where
  name : String
  kind : StageKind
  isDue : Artifacts → Bool
  run : Circuit → Artifacts → StageResult

/-- A stage that leaves nothing behind if it is refused. -/
def StageResult.ofOutcome (old : Artifacts) (r : Outcome CompileError Artifacts) : StageResult := do
  match ← r.settle with
  | .ok a => return (a, .ok ())
  | .error e => return (old, .error e)

/-- Checks the settings and places the circuit, climbing from plan to plan if they say so. -/
def Artifacts.place (a : Artifacts) (c : Circuit) : Outcome CompileError Artifacts := do
  let s ← Part.settings.need a.settings
  if let some flaw := s.flaw? then Outcome.refuse (.flawed flaw)
  let plan ← Plan.initial c s
  if s.placement.optimise then
    let p ← Proposal.optimise c s.height s.width plan s.placement.maxRounds
    return { a with plan := some p.plan, layout := some p.layout }
  else
    let l ← (Layout.place c s.height s.width plan).mapRefusal .placement
    return { a with plan := some plan, layout := some l }

/-- Gives the symbols of the circuit their cells; a mapping that is there already is extended. -/
def Artifacts.map (a : Artifacts) (c : Circuit) : Artifacts × Except CompileError Unit :=
  match a.mapping, a.layout with
  | some m, _ =>
      let (m, result) := m.mapCircuit c
      ({ a with mapping := some m }, result)
  | none, some l =>
      let (m, result) := (Mapping.ofLayout l).mapCircuit c
      ({ a with mapping := some m }, result)
  | none, none => (a, .error (.missing .layout))

def Artifacts.schedulePart (a : Artifacts) (c : Circuit) : Outcome CompileError Artifacts := do
  let l ← Part.layout.need a.layout
  let m ← Part.mapping.need a.mapping
  let s ← (Schedule.ofCircuit c m.pool l.channels).mapRefusal .deadlock
  return { a with schedule := some s }

/-- Routes the circuit. Bindings of factories stay as the run leaves them, even if it is refused. -/
def Artifacts.route (a : Artifacts) (c : Circuit) : StageResult := do
  let parts : Outcome CompileError (Settings × Layout × Schedule × Mapping) := do
    return (← Part.settings.need a.settings, ← Part.layout.need a.layout,
      ← Part.schedule.need a.schedule, ← Part.mapping.need a.mapping)
  match ← parts.settle with
  | .error e => return (a, .error e)
  | .ok (settings, l, s, m) =>
      let (job, f) ← RoutingJob.start c l m s settings.routing
      let (f, result) ← job.run f
      match result with
      | .ok r => return ({ a with mapping := some f.mapping, routing := some r }, .ok ())
      | .error e => return ({ a with mapping := some f.mapping }, .error e)

def Artifacts.countChannels (a : Artifacts) : Outcome CompileError Artifacts := do
  let l ← Part.layout.need a.layout
  return { a with notes := { a.notes with channels := some l.channels } }

namespace Stage

def allocation : Stage :=
  ⟨"Allocation", .synthesis, fun a => a.layout.isNone, fun c a => .ofOutcome a (a.place c)⟩

def mapping : Stage := ⟨"Mapping", .synthesis, fun _ => true, fun c a => return a.map c⟩

def scheduling : Stage :=
  ⟨"Scheduling", .analysis, fun _ => true, fun c a => .ofOutcome a (a.schedulePart c)⟩

def routing : Stage := ⟨"Routing", .synthesis, fun _ => true, fun c a => a.route c⟩

def countChannels : Stage :=
  ⟨"count_channels", .analysis, fun _ => true, fun _ a => .ofOutcome a a.countChannels⟩

def standard : List Stage := [allocation, mapping, scheduling, routing]

def withoutRouting : List Stage := [allocation, mapping, scheduling]

def runAll (c : Circuit) : List Stage → Artifacts → StageResult
  | [], a => return (a, .ok ())
  | s :: rest, a =>
      if s.isDue a then do
        match ← s.run c a with
        | (a, .error e) => return (a, .error e)
        | (a, .ok ()) => runAll c rest a
      else runAll c rest a

end Stage

end SurfaceFabric
