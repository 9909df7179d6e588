import SurfaceFabric.SlotKind
import SurfaceFabric.Tiling

/-!
Why a plan cannot be placed on a grid.
-/

namespace SurfaceFabric

inductive PlacementError
  | gridTooSmall (height width : Nat)
  | ioExhausted (width : Nat)
  | factoryExhausted (template : String) (height width : Nat)
  | laneExhausted
  | insufficientSlots (kind : SlotKind) (required available : Nat)
  | disconnected (segment : Nat)
  | geometry (e : GeometryError)
  deriving DecidableEq, Repr

def PlacementError.message : PlacementError → String
  | .gridTooSmall height width => s!"Grid {height}x{width} is below the minimum size"
  | .ioExhausted width => s!"No room for an I/O strip of width {width}"
  | .factoryExhausted template height width =>
      "No free segment fits extern '" ++ template ++ s!"' ({height}x{width} plus routing margin)"
  | .laneExhausted => "No register strip can be split for another routing lane"
  | .insufficientSlots kind required available =>
      s!"Layout holds {available} " ++ kind.noun ++ s!" slots but {required} are required"
  | .disconnected segment =>
      "Routing segment " ++ segmentName segment ++ " cannot be connected to the I/O routing row"
  | .geometry e => e.message

end SurfaceFabric
