import SurfaceFabric.Gate

/-!
Settings of a compilation: the size of the grid, the factory templates at hand, and how placement and
routing go about their work. Everything but the size has a default.
-/

namespace SurfaceFabric

/-- When a teleported route holds its switches: in the first or in the last cycle of its gate. -/
inductive TeleportPolicy
  | asap
  | alap
  deriving DecidableEq, Repr

structure TeleportSettings where
  enabled : Bool := true
  policy : TeleportPolicy := .asap
  /-- Routes with fewer routing cells are never teleported. -/
  minRouteLength : Nat := 6
  /-- Routing cells with at least this many routing neighbours are switches. -/
  minSwitchNeighbours : Nat := 3
  deriving DecidableEq, Repr

structure RoutingSettings where
  teleport : TeleportSettings := {}
  /-- Idle cycles after which routing gives up. -/
  deadlockThreshold : Nat := 8
  deriving DecidableEq, Repr

structure PlacementSettings where
  optimise : Bool := true
  maxRounds : Nat := 8
  deriving DecidableEq, Repr

structure Settings where
  height : Nat
  width : Nat
  templates : List Template := []
  placement : PlacementSettings := {}
  routing : RoutingSettings := {}
  deriving DecidableEq, Repr

inductive SettingsFlaw
  | emptyGrid (height width : Nat)
  | namelessTemplate
  | emptyTemplate (symbol : String)
  | repeatedTemplate (symbol : String)
  | noThreshold
  | switchNeighbours (n : Nat)
  deriving DecidableEq, Repr

def SettingsFlaw.message : SettingsFlaw → String
  | .emptyGrid height width => s!"Grid must be non-empty, got {height}x{width}"
  | .namelessTemplate => "Extern template with empty symbol"
  | .emptyTemplate symbol => "Extern template '" ++ symbol ++ "' needs non-zero size and cycles"
  | .repeatedTemplate symbol => "Duplicate extern template '" ++ symbol ++ "'"
  | .noThreshold => "Deadlock threshold must be at least 1"
  | .switchNeighbours n => s!"Switch cells need 3 or 4 routing neighbours, got {n}"

namespace Settings

def template? (s : Settings) (symbol : String) : Option Template :=
  s.templates.find? fun t => t.symbol == symbol

def withTemplate (s : Settings) (t : Template) : Settings :=
  { s with templates := s.templates ++ [t] }

def withOptimise (s : Settings) (optimise : Bool) : Settings :=
  { s with placement := { s.placement with optimise := optimise } }

def withTeleport (s : Settings) (enabled : Bool) : Settings :=
  { s with routing := { s.routing with teleport := { s.routing.teleport with enabled := enabled } } }

/-- The first template that is flawed or repeats a symbol seen before. -/
def templateFlaw? : List String → List Template → Option SettingsFlaw
  | _, [] => none
  | seen, t :: rest =>
      if t.symbol = "" then some .namelessTemplate
      else if t.width = 0 ∨ t.height = 0 ∨ t.cycles = 0 then some (.emptyTemplate t.symbol)
      else if t.symbol ∈ seen then some (.repeatedTemplate t.symbol)
      else templateFlaw? (t.symbol :: seen) rest

def flaw? (s : Settings) : Option SettingsFlaw :=
  if s.height = 0 ∨ s.width = 0 then some (.emptyGrid s.height s.width)
  else
    match templateFlaw? [] s.templates with
    | some flaw => some flaw
    | none =>
        let switch := s.routing.teleport.minSwitchNeighbours
        if s.routing.deadlockThreshold = 0 then some .noThreshold
        else if switch < 3 ∨ 4 < switch then some (.switchNeighbours switch)
        else none

end Settings

end SurfaceFabric
