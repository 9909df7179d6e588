import SurfaceFabric.Text.Yaml.Scalar

/-!
Tokens of a YAML document. Block collections are marked by indentation alone: their starts and ends
become tokens, found from the columns of dashes and keys. A key has no mark of its own either. It is
known by the colon after it, which follows on the same line and within 1024 bytes, so a token that may
be a key is remembered until then.
-/

namespace SurfaceFabric.Yaml

inductive Token
  | documentStart
  | documentEnd
  | blockList
  | blockRecord
  | blockEnd
  | openList
  | closeList
  | openRecord
  | closeRecord
  | comma
  | dash
  | key
  | colon
  | scalar (isPlain : Bool) (content : String)
  deriving DecidableEq

/-- A place where a key may have started: how many tokens came before, and whether nothing but a key
can stand there. -/
structure PossibleKey where
  required : Bool
  number : Nat
  pos : Position

def PossibleKey.isLate (k : PossibleKey) (p : Position) : Bool :=
  k.pos.line < p.line || k.pos.offset + 1024 < p.offset

/-- Tokens found so far, and what the next ones depend on: the columns of the open block collections,
the innermost first; whether a key may come next; the possible key between the innermost brackets, and
those outside of them. -/
structure Scan where
  cursor : Cursor
  tokens : Array Token
  indents : List Nat
  keyAllowed : Bool
  key : Option PossibleKey
  outer : List (Option PossibleKey)

namespace Scan

def start (cs : List Char) : Scan := ⟨.start cs, #[], [], true, none, []⟩

/-- Whether the text stands inside brackets, where indentation has no meaning. -/
def flow (s : Scan) : Bool := !s.outer.isEmpty

def column (s : Scan) : Nat := s.cursor.pos.column

def emit (t : Token) (n : Nat) (s : Scan) : Scan :=
  { s with tokens := s.tokens.push t, cursor := s.cursor.move n }

/-- Gives up the possible key, unless one is required. -/
def dropKey (s : Scan) : Option Scan :=
  if s.key.any (·.required) then none else some { s with key := none }

/-- Remembers the place as a possible key. At the column of the innermost block it is required. -/
def saveKey (s : Scan) : Option Scan :=
  if s.keyAllowed then
    s.dropKey.map fun s =>
      let required := !s.flow && s.indents.head? == some s.column
      { s with key := some ⟨required, s.tokens.size, s.cursor.pos⟩ }
  else some s

def expireKey (s : Scan) : Option Scan :=
  if s.key.any (·.isLate s.cursor.pos) then s.dropKey else some s

/-- Opens a block at a column, after so many tokens, unless one is open there. -/
def openBlock (t : Token) (column number : Nat) (s : Scan) : Scan :=
  if s.flow || s.indents.head?.any (column ≤ ·) then s
  else { s with
    indents := column :: s.indents
    tokens := s.tokens.insertIdxIfInBounds number t }

def closeBlocks (deep : Nat → Bool) (s : Scan) : Scan :=
  if s.flow then s
  else
    { s with
      indents := s.indents.dropWhile deep
      tokens := s.tokens ++ (s.indents.takeWhile deep).map fun _ => Token.blockEnd }

def marker (t : Token) (s : Scan) : Option Scan :=
  (s.closeBlocks fun _ => true).dropKey.map fun s => { s with keyAllowed := false }.emit t 3

def openBracket (t : Token) (s : Scan) : Option Scan :=
  s.saveKey.map fun s =>
    { s with keyAllowed := true, key := none, outer := s.key :: s.outer }.emit t 1

def closeBracket (t : Token) (s : Scan) : Option Scan :=
  s.dropKey.map fun s =>
    { s with keyAllowed := false, key := s.outer.head?.join, outer := s.outer.tail }.emit t 1

def comma (s : Scan) : Option Scan :=
  s.dropKey.map fun s => { s with keyAllowed := true }.emit .comma 1

/-- A dash is refused inside brackets only when values are read from the tokens. -/
def dash (s : Scan) : Option Scan :=
  if s.flow || s.keyAllowed then
    (s.openBlock .blockList s.column s.tokens.size).dropKey.map fun s =>
      { s with keyAllowed := true }.emit .dash 1
  else none

def question (s : Scan) : Option Scan :=
  if s.flow || s.keyAllowed then
    (s.openBlock .blockRecord s.column s.tokens.size).dropKey.map fun s =>
      { s with keyAllowed := !s.flow }.emit .key 1
  else none

/-- A colon makes a key of the possible one; the start of its record comes before it. -/
def colon (s : Scan) : Option Scan :=
  match s.key with
  | some k =>
      let marked := { s with tokens := s.tokens.insertIdxIfInBounds k.number .key }
      let opened := marked.openBlock .blockRecord k.pos.column k.number
      some <| { opened with keyAllowed := false, key := none }.emit .colon 1
  | none =>
      if s.flow || s.keyAllowed then
        let opened := s.openBlock .blockRecord s.column s.tokens.size
        some <| { opened with keyAllowed := !s.flow }.emit .colon 1
      else none

def quoted (double : Bool) (s : Scan) : Option Scan := do
  let s ← s.saveKey
  let next := s.cursor.move 1
  let (text, cursor) ← quotedFrom double .text .empty [] next.rest next.pos
  return { s with
    cursor
    tokens := s.tokens.push (.scalar false (String.ofList text))
    keyAllowed := false }

/-- A plain scalar takes the gap behind it along, and if that ends a line, a key may come next. -/
def plain (s : Scan) : Option Scan := do
  let s ← s.saveKey
  let low := match s.indents with
    | [] => 0
    | column :: _ => column + 1
  let (text, gap, cursor) ← plainFrom s.flow low .empty [] s.cursor.rest s.cursor.pos
  return { s with
    cursor
    tokens := s.tokens.push (.scalar true (String.ofList text))
    keyAllowed := !gap.breaks.isEmpty }

def settle (s : Scan) : Option Scan := do
  let (keyAllowed, cursor) := s.cursor.skip s.flow s.keyAllowed
  let s ← { s with keyAllowed, cursor }.expireKey
  return s.closeBlocks (s.column < ·)

/-- One token. Anchors, tags, directives and block scalars are not read. -/
def token? (s : Scan) : Option Scan :=
  let rest := s.cursor.rest
  let alone := blankNext (rest.drop 1)
  if s.cursor.isMarker '-' then s.marker .documentStart
  else if s.cursor.isMarker '.' then s.marker .documentEnd
  else match rest.head? with
    | some '[' => s.openBracket .openList
    | some '\x7b' => s.openBracket .openRecord
    | some ']' => s.closeBracket .closeList
    | some '\x7d' => s.closeBracket .closeRecord
    | some ',' => s.comma
    | some '"' => s.quoted true
    | some '\'' => s.quoted false
    | some ch =>
        if ch = '-' && alone then s.dash
        else if ch = '?' && (s.flow || alone) then s.question
        else if ch = ':' && (s.flow || alone) then s.colon
        else if startsPlain s.flow rest then s.plain
        else none
    | none => none

/-- All tokens in order. -/
def finish (s : Scan) : Option (List Token) :=
  (s.closeBlocks fun _ => true).dropKey.map fun s => s.tokens.toList

def run : Nat → Scan → Option (List Token)
  | 0, _ => none
  | n + 1, s => do
      let s ← s.settle
      if s.cursor.rest.isEmpty then s.finish else run n (← s.token?)

end Scan

/-- The tokens of a text. Each takes at least one character, so the fuel suffices. -/
def tokens? (s : String) : Option (List Token) :=
  if s.toList.all isAllowed then
    let cs := unifyBreaks s.toList
    Scan.run (cs.length + 1) (.start cs)
  else none

end SurfaceFabric.Yaml
