import SurfaceFabric.Gate
import SurfaceFabric.Tiling.Edit

/-!
Layouts: a tiled grid with the width of its I/O strip and the factories placed on it. A factory is
entered through the lower right cell of its segment. Its handle is its position in the list.
-/

namespace SurfaceFabric

structure FactoryUnit where
  handle : Nat
  template : String
  segment : Nat
  cycles : Nat
  deriving DecidableEq, Repr

structure Layout where
  tiling : Tiling
  ioWidth : Nat
  units : List FactoryUnit
  deriving DecidableEq, Repr

namespace Layout

def ofTiling (t : Tiling) (ioWidth : Nat) : Layout := ⟨t, ioWidth, []⟩

def ofSize (height width : Nat) : Layout := ofTiling (Tiling.ofSize height width) 0

def height (l : Layout) : Nat := l.tiling.height

def width (l : Layout) : Nat := l.tiling.width

def unit? (l : Layout) (handle : Nat) : Option FactoryUnit := l.units[handle]?

def nextHandle (l : Layout) : Nat := l.units.length

def addUnit (l : Layout) (template : Template) (segment : Nat) : Layout :=
  { l with units := l.units ++ [⟨l.nextHandle, template.symbol, segment, template.cycles⟩] }

def entrance? (l : Layout) (handle : Nat) : Option Cell := do
  let u ← l.unit? handle
  let s ← l.tiling.segment? u.segment
  return ⟨s.rect.y1 - 1, s.rect.x1 - 1⟩

def unitCount (l : Layout) (template : String) : Nat :=
  (l.units.filter fun u => u.template == template).length

/-- Shared routing segments, but at least one. -/
def channels (l : Layout) : Nat :=
  max (l.tiling.segments.filter fun s => s.role == .route).length 1

def capacity (l : Layout) (role : Role) : Checked Nat :=
  Tiling.totalArea ((l.tiling.segments.filter fun s => s.role == role).map Segment.rect)

def glyphAt (l : Layout) (c : Cell) : Char := ((l.tiling.roleAt? c).map Role.glyph).getD ' '

def render (l : Layout) : String :=
  String.ofList <| (List.range l.height).flatMap fun y =>
    ((List.range l.width).map fun x => l.glyphAt ⟨y, x⟩) ++ ['\n']

@[simp] theorem unitCount_addUnit_self (l : Layout) (t : Template) (segment : Nat) :
    (l.addUnit t segment).unitCount t.symbol = l.unitCount t.symbol + 1 := by
  simp [unitCount, addUnit]

end Layout

end SurfaceFabric
