import SurfaceFabric.Interchange
import SurfaceFabric.Text.Yaml.Format
import SurfaceFabric.Text.Yaml.Reader

/-!
Loading settings from text. What was read is checked before it is used.
-/

namespace SurfaceFabric

inductive LoadError
  | noFile
  | badJson
  | badYaml
  | flawed (flaw : SettingsFlaw)
  deriving DecidableEq, Repr

namespace Settings

def checked (s : Settings) : Except LoadError Settings :=
  match s.flaw? with
  | some flaw => .error (.flawed flaw)
  | none => .ok s

def ofJson (text : String) : Except LoadError Settings :=
  match (Json.ofString? text).bind (read? Json.format) with
  | none => .error .badJson
  | some s => s.checked

def ofYaml (text : String) : Except LoadError Settings :=
  match (Yaml.ofString? text).bind (read? Yaml.format) with
  | none => .error .badYaml
  | some s => s.checked

/-- What comes after the last dot of a file name, unless that is its first character. -/
def extension? (name : String) : Option String :=
  let tail := name.toList.reverse.takeWhile (· ≠ '.')
  if tail.length + 1 < name.length then some (String.ofList tail.reverse) else none

/-- Files named so are JSON, all others YAML. A file that is not there has no text. -/
def ofFile (name : String) (text : Option String) : Except LoadError Settings :=
  match text with
  | none => .error .noFile
  | some text => if extension? name = some "json" then ofJson text else ofYaml text

end Settings

end SurfaceFabric
