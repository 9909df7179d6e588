import SurfaceFabric.Text.Yaml
import SurfaceFabric.Text.Yaml.Token

/-!
Reading a YAML document from its tokens. A list under a key may stand at the key's own column; it has no
start or end of its own then. An entry of a bracketed list that has a colon is a record of one member.
-/

namespace SurfaceFabric.Yaml

mutual

/-- A value. Under a key, a dash starts a list. -/
def node : Nat → Bool → List Token → Option (Yaml × List Token)
  | 0, _, _ => none
  | n + 1, underKey, ts =>
      match ts with
      | .scalar isPlain content :: ts => some (.scalar isPlain content, ts)
      | .openList :: ts => (flowItems n true ts).map fun (items, ts) => (.list items, ts)
      | .openRecord :: ts => (flowMembers n true ts).map fun (members, ts) => (.record members, ts)
      | .blockList :: ts => (blockItems n ts).map fun (items, ts) => (.list items, ts)
      | .blockRecord :: ts => (blockMembers n ts).map fun (members, ts) => (.record members, ts)
      | .dash :: _ =>
          if underKey then (looseItems n ts).map fun (items, ts) => (.list items, ts) else none
      | _ => none

def nodeBefore : Nat → Bool → List Token → List Token → Option (Yaml × List Token)
  | 0, _, _, _ => none
  | n + 1, underKey, ends, ts =>
      if ts.head?.any (· ∈ ends) then some (missing, ts) else node n underKey ts

/-- The value after a key; without a colon it is missing. -/
def valueBefore : Nat → Bool → List Token → List Token → Option (Yaml × List Token)
  | 0, _, _, _ => none
  | n + 1, underKey, ends, ts =>
      match ts with
      | .colon :: ts => nodeBefore n underKey ends ts
      | ts => some (missing, ts)

def blockItems : Nat → List Token → Option (List Yaml × List Token)
  | 0, _ => none
  | n + 1, ts =>
      match ts with
      | .dash :: ts => do
          let (item, ts) ← nodeBefore n false [.dash, .blockEnd] ts
          let (items, ts) ← blockItems n ts
          return (item :: items, ts)
      | .blockEnd :: ts => some ([], ts)
      | _ => none

/-- Entries of a list at the column of the key above it. -/
def looseItems : Nat → List Token → Option (List Yaml × List Token)
  | 0, _ => none
  | n + 1, ts =>
      match ts with
      | .dash :: ts => do
          let (item, ts) ← nodeBefore n false [.dash, .key, .colon, .blockEnd] ts
          let (items, ts) ← looseItems n ts
          return (item :: items, ts)
      | ts => some ([], ts)

def blockMembers : Nat → List Token → Option (List (Yaml × Yaml) × List Token)
  | 0, _ => none
  | n + 1, ts =>
      match ts with
      | .key :: ts => do
          let ends := [.key, .colon, .blockEnd]
          let (key, ts) ← nodeBefore n true ends ts
          let (v, ts) ← valueBefore n true ends ts
          let (members, ts) ← blockMembers n ts
          return ((key, v) :: members, ts)
      | .blockEnd :: ts => some ([], ts)
      | _ => none

/-- Entries up to the closing bracket. All but the first come after a comma, and a comma may also end
the list. If an entry starts with a key that is missing, the token in its place is dropped. -/
def flowItems : Nat → Bool → List Token → Option (List Yaml × List Token)
  | 0, _, _ => none
  | n + 1, first, ts =>
      match first, ts with
      | _, .closeList :: ts => some ([], ts)
      | false, .comma :: .closeList :: ts => some ([], ts)
      | false, .comma :: ts | true, ts => do
          let (item, ts) ← flowItem n ts
          let (items, ts) ← flowItems n false ts
          return (item :: items, ts)
      | false, _ => none

def flowItem : Nat → List Token → Option (Yaml × List Token)
  | 0, _ => none
  | n + 1, ts =>
      match ts with
      | .key :: ts => do
          let absent := [.colon, .comma, .closeList].any (ts.head? == some ·)
          let (key, ts) ← if absent then some (missing, ts.tail) else node n false ts
          let (v, ts) ← valueBefore n false [.comma, .closeList] ts
          return (.record [(key, v)], ts)
      | ts => node n false ts

def flowMembers : Nat → Bool → List Token → Option (List (Yaml × Yaml) × List Token)
  | 0, _, _ => none
  | n + 1, first, ts =>
      match first, ts with
      | _, .closeRecord :: ts => some ([], ts)
      | false, .comma :: .closeRecord :: ts => some ([], ts)
      | false, .comma :: ts | true, ts => do
          let (member, ts) ← flowMember n ts
          let (members, ts) ← flowMembers n false ts
          return (member :: members, ts)
      | false, _ => none

/-- A value that is no key is the key of a member without a value. -/
def flowMember : Nat → List Token → Option ((Yaml × Yaml) × List Token)
  | 0, _ => none
  | n + 1, ts =>
      match ts with
      | .key :: ts => do
          let (key, ts) ← nodeBefore n false [.colon, .comma, .closeRecord] ts
          let (v, ts) ← valueBefore n false [.comma, .closeRecord] ts
          return ((key, v), ts)
      | ts => (node n false ts).map fun (key, ts) => ((key, missing), ts)

end

/-- Tokens of exactly one document, which is not empty. A value is missing only after a start marker. -/
def ofTokens? (ts : List Token) : Option Yaml := do
  let fuel := 4 * ts.length + 4
  let (v, rest) ←
    match ts with
    | .documentStart :: ts =>
        if ts.head?.all (· ∈ [.documentStart, .documentEnd]) then some (missing, ts)
        else node fuel false ts
    | ts => node fuel false ts
  if rest.all (· == .documentEnd) then some v else none

def ofString? (s : String) : Option Yaml := (tokens? s).bind ofTokens?

end SurfaceFabric.Yaml
