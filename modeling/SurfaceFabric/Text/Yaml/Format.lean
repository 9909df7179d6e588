import SurfaceFabric.Text.Format
import SurfaceFabric.Text.Yaml
import SurfaceFabric.Text.Yaml.Scalar

/-!
Reading typed values from YAML. Numbers and truth values are plain scalars; any scalar is text, and
names a variant. An empty plain scalar is an empty list or record.
-/

namespace SurfaceFabric.Yaml

def digit? (base : Nat) (ch : Char) : Option Nat :=
  (hexDigit? ch).bind fun d => if d < base then some d else none

def natOf? (base : Nat) (cs : List Char) : Option Nat :=
  if cs.isEmpty then none
  else (cs.mapM (digit? base)).map fun ds => ds.foldl (fun n d => n * base + d) 0

/-- Natural numbers may carry a plus sign and may be written to base 16, 8 or 2. Decimal ones have no
leading zeros. -/
def natOfChars? (cs : List Char) : Option Nat :=
  let cs := if cs.head? == some '+' then cs.tail else cs
  match cs with
  | '0' :: 'x' :: rest => natOf? 16 rest
  | '0' :: 'o' :: rest => natOf? 8 rest
  | '0' :: 'b' :: rest => natOf? 2 rest
  | ['0'] => some 0
  | '0' :: _ => none
  | cs => natOf? 10 cs

def nat? : Yaml → Option Nat
  | .scalar true content => natOfChars? content.toList
  | _ => none

def bool? : Yaml → Option Bool
  | .scalar true content =>
      if content ∈ ["true", "True", "TRUE"] then some true
      else if content ∈ ["false", "False", "FALSE"] then some false
      else none
  | _ => none

def text? : Yaml → Option String
  | .scalar _ content => some content
  | _ => none

def isMissing : Yaml → Bool
  | .scalar true content => content = ""
  | _ => false

def items? : Yaml → Option (List Yaml)
  | .list items => some items
  | v => if v.isMissing then some [] else none

def fields? : Yaml → Option (Fields Yaml)
  | .record members =>
      (members.mapM fun (m : Yaml × Yaml) => m.1.text?.map fun name => (name, m.2)).map Fields.named
  | v => if v.isMissing then some (.named []) else none

def variant? (v : Yaml) : Option (String × Option Yaml) := v.text?.map fun name => (name, none)

def format : Format Yaml := ⟨nat?, bool?, text?, isMissing, items?, fields?, variant?⟩

end SurfaceFabric.Yaml
