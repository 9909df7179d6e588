import SurfaceFabric.Placement.Error
import SurfaceFabric.Schedule
import SurfaceFabric.Settings

/-!
Why a compilation or one of its stages is refused.
-/

namespace SurfaceFabric

/-- What a stage leaves behind for later ones. -/
inductive Part
  | settings
  | layout
  | mapping
  | schedule
  | routing
  deriving DecidableEq, Repr

inductive CompileError
  | circuit (e : CircuitError)
  | placement (e : PlacementError)
  | unknownTemplate (template : String)
  | unmapped (symbol : Symbol)
  | outOfSlots (kind : SlotKind)
  | deadlock (d : Deadlock)
  | missing (part : Part)
  | flawed (flaw : SettingsFlaw)
  deriving DecidableEq, Repr

def Part.missingMessage : Part → String
  | .settings => "Missing compiler configuration"
  | .layout => "Missing QCB layout; run allocation first"
  | .mapping => "Missing mapper; run mapping first"
  | .schedule => "Missing schedule; run scheduling first"
  | .routing => "Missing routing result; run routing first"

def CompileError.message : CompileError → String
  | .circuit e => "IR error: " ++ e.message
  | .placement e => "Allocation failed: " ++ e.message
  | .unknownTemplate template =>
      "Extern template '" ++ template ++ "' is required by the graph but not configured"
  | .unmapped symbol => "Symbol " ++ symbol.label ++ " has no coordinate on the fabric"
  | .outOfSlots kind => "No free " ++ kind.noun ++ " slot left in the resource tree"
  | .deadlock d => s!"Deadlock at cycle {d.cycle}: {d.waiting} gates cannot make progress"
  | .missing part => part.missingMessage
  | .flawed flaw => "Invalid configuration: " ++ flaw.message

end SurfaceFabric
