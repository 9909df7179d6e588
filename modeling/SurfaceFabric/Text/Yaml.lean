/-!
YAML values: scalars, lists and records. Keys are values themselves, and a missing value is an empty
plain scalar.
-/

namespace SurfaceFabric

inductive Yaml
  | scalar (isPlain : Bool) (content : String)
  | list (items : List Yaml)
  | record (members : List (Yaml × Yaml))

namespace Yaml

def missing : Yaml := .scalar true ""

end Yaml

end SurfaceFabric
