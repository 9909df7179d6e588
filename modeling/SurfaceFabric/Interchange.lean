import SurfaceFabric.LockGrid
import SurfaceFabric.Routing
import SurfaceFabric.Schedule
import SurfaceFabric.Settings
import SurfaceFabric.SlotKind
import SurfaceFabric.Text.Json.Format

/-!
The interchange form of the library's values: how each is read from a text format and how it is written
as JSON. Records are written with all fields under their names; variants without contents are written
as their name, others as an object with one member.
-/

namespace SurfaceFabric

variable {α : Type}

def Json.tagged (name : String) (v : Json) : Json := .obj [(name, v)]

def Symbol.read? (f : Format α) (v : α) : Option Symbol := do
  match ← f.variant? v with
  | ("Register", some v) => return .register (← f.text? v)
  | ("Io", some v) => return .io (← f.text? v)
  | ("Extern", some v) =>
      let [template, id] ← f.record? ["template", "id"] v | none
      return .factory (← template.bind f.text?) (← id.bind f.word?)
  | _ => none

def Symbol.write : Symbol → Json
  | .register name => .tagged "Register" (.str name)
  | .io name => .tagged "Io" (.str name)
  | .factory template id =>
      .tagged "Extern" (.obj [("template", .str template), ("id", .nat id)])

def GateKind.read? (f : Format α) (v : α) : Option GateKind := do
  match ← f.variant? v with
  | ("Operation", payload) => (f.unit? payload).map fun _ => .operation
  | ("Reset", payload) => (f.unit? payload).map fun _ => .reset
  | _ => none

def GateKind.write : GateKind → Json
  | .operation => .str "Operation"
  | .reset => .str "Reset"

def Gate.read? (f : Format α) (v : α) : Option Gate := do
  let [name, operands, cycles, kind] ← f.record? ["name", "operands", "cycles", "kind"] v | none
  return ⟨← name.bind f.text?, ← operands.bind (f.list? (Symbol.read? f)), ← cycles.bind f.word?,
    ← kind.bind (GateKind.read? f)⟩

def Gate.write (g : Gate) : Json :=
  .obj [("name", .str g.name), ("operands", .array Symbol.write g.operands),
    ("cycles", .nat g.cycles), ("kind", g.kind.write)]

structure LayeredGate where
  gate : Gate
  layer : Nat
  deriving DecidableEq, Repr

def LayeredGate.read? (f : Format α) (v : α) : Option LayeredGate := do
  let [gate, layer] ← f.record? ["gate", "layer"] v | none
  return ⟨← gate.bind (Gate.read? f), ← layer.bind f.word?⟩

def LayeredGate.write (g : LayeredGate) : Json :=
  .obj [("gate", g.gate.write), ("layer", .nat g.layer)]

def Template.read? (f : Format α) (v : α) : Option Template := do
  let [symbol, width, height, cycles] ← f.record? ["symbol", "width", "height", "cycles"] v | none
  return ⟨← symbol.bind f.text?, ← width.bind f.word?, ← height.bind f.word?, ← cycles.bind f.word?⟩

def Template.write (t : Template) : Json :=
  .obj [("symbol", .str t.symbol), ("width", .nat t.width), ("height", .nat t.height),
    ("cycles", .nat t.cycles)]

def Cell.read? (f : Format α) (v : α) : Option Cell := do
  let [y, x] ← f.record? ["y", "x"] v | none
  return ⟨← y.bind f.word?, ← x.bind f.word?⟩

def Cell.write (c : Cell) : Json := .obj [("y", .nat c.y), ("x", .nat c.x)]

def Rect.read? (f : Format α) (v : α) : Option Rect := do
  let [y0, x0, y1, x1] ← f.record? ["y0", "x0", "y1", "x1"] v | none
  return ⟨← y0.bind f.word?, ← x0.bind f.word?, ← y1.bind f.word?, ← x1.bind f.word?⟩

def Rect.write (r : Rect) : Json :=
  .obj [("y0", .nat r.y0), ("x0", .nat r.x0), ("y1", .nat r.y1), ("x1", .nat r.x1)]

def Role.read? (f : Format α) (v : α) : Option Role := do
  match ← f.variant? v with
  | ("Unallocated", payload) => (f.unit? payload).map fun _ => .unassigned
  | ("Register", payload) => (f.unit? payload).map fun _ => .register
  | ("Route", payload) => (f.unit? payload).map fun _ => .route
  | ("LocalRoute", payload) => (f.unit? payload).map fun _ => .localRoute
  | ("Io", payload) => (f.unit? payload).map fun _ => .io
  | ("Extern", some v) => (f.word? v).map .factory
  | ("Intermediary", payload) => (f.unit? payload).map fun _ => .intermediary
  | _ => none

def Role.write : Role → Json
  | .unassigned => .str "Unallocated"
  | .register => .str "Register"
  | .route => .str "Route"
  | .localRoute => .str "LocalRoute"
  | .io => .str "Io"
  | .factory handle => .tagged "Extern" (.nat handle)
  | .intermediary => .str "Intermediary"

def SlotKind.read? (f : Format α) (v : α) : Option SlotKind := do
  match ← f.variant? v with
  | ("Register", payload) => (f.unit? payload).map fun _ => .register
  | ("Io", payload) => (f.unit? payload).map fun _ => .io
  | ("Extern", some v) => (f.text? v).map .factory
  | _ => none

def SlotKind.write : SlotKind → Json
  | .register => .str "Register"
  | .io => .str "Io"
  | .factory template => .tagged "Extern" (.str template)

def FactoryUnit.read? (f : Format α) (v : α) : Option FactoryUnit := do
  let [handle, template, segment, cycles] ←
    f.record? ["handle", "template", "segment", "cycles"] v | none
  return ⟨← handle.bind f.word?, ← template.bind f.text?, ← segment.bind f.word?,
    ← cycles.bind f.word?⟩

def FactoryUnit.write (u : FactoryUnit) : Json :=
  .obj [("handle", .nat u.handle), ("template", .str u.template), ("segment", .nat u.segment),
    ("cycles", .nat u.cycles)]

def TeleportPolicy.read? (f : Format α) (v : α) : Option TeleportPolicy := do
  match ← f.variant? v with
  | ("asap", payload) => (f.unit? payload).map fun _ => .asap
  | ("alap", payload) => (f.unit? payload).map fun _ => .alap
  | _ => none

def TeleportPolicy.write : TeleportPolicy → Json
  | .asap => .str "asap"
  | .alap => .str "alap"

def TeleportSettings.read? (f : Format α) (v : α) : Option TeleportSettings := do
  let [enabled, policy, length, neighbours] ←
    f.record? ["enabled", "policy", "min_route_length", "min_switch_neighbours"] v | none
  let d : TeleportSettings := {}
  return ⟨← orDefault d.enabled f.bool? enabled,
    ← orDefault d.policy (TeleportPolicy.read? f) policy,
    ← orDefault d.minRouteLength f.long? length,
    ← orDefault d.minSwitchNeighbours f.long? neighbours⟩

def TeleportSettings.write (s : TeleportSettings) : Json :=
  .obj [("enabled", .bool s.enabled), ("policy", s.policy.write),
    ("min_route_length", .nat s.minRouteLength),
    ("min_switch_neighbours", .nat s.minSwitchNeighbours)]

def RoutingSettings.read? (f : Format α) (v : α) : Option RoutingSettings := do
  let [teleport, threshold] ← f.record? ["teleport", "deadlock_threshold"] v | none
  let d : RoutingSettings := {}
  return ⟨← orDefault d.teleport (TeleportSettings.read? f) teleport,
    ← orDefault d.deadlockThreshold f.word? threshold⟩

def RoutingSettings.write (s : RoutingSettings) : Json :=
  .obj [("teleport", s.teleport.write), ("deadlock_threshold", .nat s.deadlockThreshold)]

def PlacementSettings.read? (f : Format α) (v : α) : Option PlacementSettings := do
  let [optimise, rounds] ← f.record? ["optimise", "max_rounds"] v | none
  let d : PlacementSettings := {}
  return ⟨← orDefault d.optimise f.bool? optimise, ← orDefault d.maxRounds f.long? rounds⟩

def PlacementSettings.write (s : PlacementSettings) : Json :=
  .obj [("optimise", .bool s.optimise), ("max_rounds", .nat s.maxRounds)]

def Settings.read? (f : Format α) (v : α) : Option Settings := do
  let [height, width, templates, placement, routing] ←
    f.record? ["height", "width", "externs", "allocator", "router"] v | none
  return ⟨← height.bind f.word?, ← width.bind f.word?,
    ← orDefault [] (f.list? (Template.read? f)) templates,
    ← orDefault {} (PlacementSettings.read? f) placement,
    ← orDefault {} (RoutingSettings.read? f) routing⟩

def Settings.write (s : Settings) : Json :=
  .obj [("height", .nat s.height), ("width", .nat s.width),
    ("externs", .array Template.write s.templates), ("allocator", s.placement.write),
    ("router", s.routing.write)]

def CellLock.read? (f : Format α) (v : α) : Option CellLock := do
  let [cell, start, stop] ← f.record? ["coord", "from", "until"] v | none
  return ⟨← cell.bind (Cell.read? f), ← start.bind f.word?, ← stop.bind f.word?⟩

def CellLock.write (l : CellLock) : Json :=
  .obj [("coord", l.cell.write), ("from", .nat l.start), ("until", .nat l.stop)]

def Lock.read? (f : Format α) (v : α) : Option Lock := do
  let [owner, start, stop] ← f.record? ["owner", "from", "until"] v | none
  return ⟨← owner.bind f.word?, ← start.bind f.word?, ← stop.bind f.word?⟩

def Lock.write (l : Lock) : Json :=
  .obj [("owner", .nat l.owner), ("from", .nat l.start), ("until", .nat l.stop)]

def Orientation.read? (f : Format α) (v : α) : Option Orientation := do
  match ← f.variant? v with
  | ("Vertical", payload) => (f.unit? payload).map fun _ => .vertical
  | ("Free", payload) => (f.unit? payload).map fun _ => .free
  | _ => none

def Orientation.write : Orientation → Json
  | .vertical => .str "Vertical"
  | .free => .str "Free"

def Schedule.read? (f : Format α) (v : α) : Option Schedule := do
  let [cycles, channels, layers, starts, ends, bindings] ←
    f.record? ["cycles", "channels", "layers", "start", "end", "bindings"] v | none
  return ⟨← cycles.bind f.word?, ← channels.bind f.long?,
    ← layers.bind (f.list? (f.list? f.word?)), ← starts.bind (f.list? f.word?),
    ← ends.bind (f.list? f.word?), ← bindings.bind (f.list? (f.option? f.word?))⟩

def Schedule.write (s : Schedule) : Json :=
  .obj [("cycles", .nat s.cycles), ("channels", .nat s.channels),
    ("layers", .array (.array .nat) s.layers), ("start", .array .nat s.starts),
    ("end", .array .nat s.ends), ("bindings", .array (.option .nat) s.bindings)]

def Teleport.read? (f : Format α) (v : α) : Option Teleport := do
  let [gates, endpoints, cells, start, stop] ←
    f.record? ["gates", "endpoints", "cells", "from", "until"] v | none
  return ⟨← gates.bind (f.list? f.word?), ← endpoints.bind (f.list? (Cell.read? f)),
    ← cells.bind (f.list? (Cell.read? f)), ← start.bind f.word?, ← stop.bind f.word?⟩

def Teleport.write (t : Teleport) : Json :=
  .obj [("gates", .array .nat t.gates), ("endpoints", .array Cell.write t.endpoints),
    ("cells", .array Cell.write t.cells), ("from", .nat t.start), ("until", .nat t.stop)]

def Route.read? (f : Format α) (v : α) : Option Route := do
  let [gate, start, finish, path, teleports, locks] ←
    f.record? ["gate", "start", "end", "path", "teleports", "locks"] v | none
  return ⟨← gate.bind f.word?, ← start.bind f.word?, ← finish.bind f.word?,
    ← path.bind (f.list? (Cell.read? f)), ← teleports.bind (f.list? (Teleport.read? f)),
    ← locks.bind (f.list? (CellLock.read? f))⟩

def Route.write (r : Route) : Json :=
  .obj [("gate", .nat r.gate), ("start", .nat r.start), ("end", .nat r.finish),
    ("path", .array Cell.write r.path), ("teleports", .array Teleport.write r.teleports),
    ("locks", .array CellLock.write r.locks)]

def Routing.read? (f : Format α) (v : α) : Option Routing := do
  let [cycles, routes, layers, teleports] ←
    f.record? ["cycles", "routes", "layers", "teleports"] v | none
  return ⟨← cycles.bind f.word?, ← routes.bind (f.list? (Route.read? f)),
    ← layers.bind (f.list? (f.list? f.word?)), ← teleports.bind (f.list? (Teleport.read? f))⟩

def Routing.write (r : Routing) : Json :=
  .obj [("cycles", .nat r.cycles), ("routes", .array Route.write r.routes),
    ("layers", .array (.array .nat) r.layers), ("teleports", .array Teleport.write r.teleports)]

/-- Reads JSON text as a type and writes the value back. -/
def roundTrip? {β : Type} (read : Format Json → Json → Option β) (write : β → Json) (text : String) :
    Option Json :=
  ((Json.ofString? text).bind (read Json.format)).map write

end SurfaceFabric
