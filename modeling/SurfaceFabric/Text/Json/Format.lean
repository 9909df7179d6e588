import SurfaceFabric.Text.Format
import SurfaceFabric.Text.Json

/-!
Reading typed values from JSON. A record is an object or a list of its fields; a variant is a string or
an object with one member.
-/

namespace SurfaceFabric.Json

def nat? : Json → Option Nat
  | .int (.ofNat n) => some n
  | _ => none

def bool? : Json → Option Bool
  | .bool b => some b
  | _ => none

def text? : Json → Option String
  | .text content => content
  | _ => none

def isNull : Json → Bool
  | .null => true
  | _ => false

def items? : Json → Option (List Json)
  | .list items => some items
  | _ => none

def fields? : Json → Option (Fields Json)
  | .record members =>
      (members.mapM fun (m : Option String × Json) => m.1.map fun name => (name, m.2)).map Fields.named
  | .list items => some (.listed items)
  | _ => none

def variant? : Json → Option (String × Option Json)
  | .text content => content.map fun name => (name, none)
  | .record [(some name, v)] => some (name, some v)
  | _ => none

def format : Format Json := ⟨nat?, bool?, text?, isNull, items?, fields?, variant?⟩

end SurfaceFabric.Json
