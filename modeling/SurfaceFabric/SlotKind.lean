import SurfaceFabric.Symbol

/-!
Kinds of slots that a fabric offers: register cells, I/O cells, and factories of a template.
-/

namespace SurfaceFabric

inductive SlotKind
  | register
  | io
  | factory (template : String)
  deriving DecidableEq, Repr

def SlotKind.noun : SlotKind → String
  | .register => "register"
  | .io => "I/O"
  | .factory template => template

def Symbol.slotKind : Symbol → SlotKind
  | .register _ => .register
  | .io _ => .io
  | .factory template _ => .factory template

end SurfaceFabric
