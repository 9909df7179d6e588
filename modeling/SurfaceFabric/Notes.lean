import SurfaceFabric.Word

/-!
Notes that stages leave for one another: at most one of each kind.
-/

namespace SurfaceFabric

structure Notes where
  number : Option Nat := none
  text : Option String := none
  channels : Option Nat := none
  deriving DecidableEq, Repr

namespace Notes

/-- Adds to the number that is there; the sum wraps around in its word. -/
def addNumber? (n : Notes) (k : Nat) : Option Notes :=
  n.number.map fun m => { n with number := some ((m + k) % (Word.top + 1)) }

def addText? (n : Notes) (s : String) : Option Notes :=
  n.text.map fun t => { n with text := some (t ++ s) }

end Notes

end SurfaceFabric
