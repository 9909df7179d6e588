import SurfaceFabric.Text.Json
import SurfaceFabric.Text.Quoted

/-!
Compact JSON text: no blanks, characters outside ASCII as they are, control characters escaped.
-/

namespace SurfaceFabric.Json

def escapeChar (c : Char) : List Char :=
  if c = '"' then ['\\', '"']
  else if c = '\\' then ['\\', '\\']
  else if c = '\n' then ['\\', 'n']
  else if c = '\r' then ['\\', 'r']
  else if c = '\t' then ['\\', 't']
  else if c.toNat = 8 then ['\\', 'b']
  else if c.toNat = 12 then ['\\', 'f']
  else if c.toNat < 32 then ['\\', 'u'] ++ Text.hexPadded 4 c.toNat
  else [c]

def renderText (s : String) : String :=
  String.ofList (['"'] ++ s.toList.flatMap escapeChar ++ ['"'])

mutual

def render : Json → String
  | .null => "null"
  | .bool true => "true"
  | .bool false => "false"
  | .int n => toString n
  | .real written => String.ofList written
  | .text content => renderText (content.getD "")
  | .list [] => "[]"
  | .list (x :: xs) => "[" ++ render x ++ renderItems xs
  | .record [] => "\x7b\x7d"
  | .record ((name, v) :: ms) =>
      "\x7b" ++ renderText (name.getD "") ++ ":" ++ render v ++ renderMembers ms

def renderItems : List Json → String
  | [] => "]"
  | x :: xs => "," ++ render x ++ renderItems xs

def renderMembers : List (Option String × Json) → String
  | [] => "\x7d"
  | (name, v) :: ms =>
      "," ++ renderText (name.getD "") ++ ":" ++ render v ++ renderMembers ms

end

end SurfaceFabric.Json
