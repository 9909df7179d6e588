/-!
Places in the text of a YAML document. Columns count characters and tell how far a line is indented;
offsets count bytes and bound the length of keys. Between two tokens stand blanks, comments and line
breaks.
-/

namespace SurfaceFabric.Yaml

def isAllowed (ch : Char) : Bool :=
  let n := ch.toNat
  n = 9 || n = 10 || n = 13 || (32 ≤ n && n ≤ 126) || n = 0x85 || (0xA0 ≤ n && n ≤ 0xD7FF)
    || (0xE000 ≤ n && n ≤ 0xFFFD) || 0x10000 ≤ n

/-- A line feed may also be written as a carriage return, as both or as a next-line character. -/
def unifyBreaks : List Char → List Char
  | '\r' :: '\n' :: rest => '\n' :: unifyBreaks rest
  | ch :: rest => (if ch = '\r' || ch.toNat = 0x85 then '\n' else ch) :: unifyBreaks rest
  | [] => []

def isBlank (ch : Char) : Bool := ch = ' ' || ch = '\t'

/-- The line and paragraph separators end a line as a line feed does. -/
def isBreak (ch : Char) : Bool := ch = '\n' || ch.toNat = 0x2028 || ch.toNat = 0x2029

def isOrderMark (ch : Char) : Bool := ch.toNat = 0xFEFF

def blankNext : List Char → Bool
  | [] => true
  | ch :: _ => isBlank ch || isBreak ch

structure Position where
  offset : Nat
  line : Nat
  column : Nat

def Position.after (p : Position) (ch : Char) : Position :=
  if isBreak ch then ⟨p.offset + ch.utf8Size, p.line + 1, 0⟩
  else ⟨p.offset + ch.utf8Size, p.line, p.column + 1⟩

structure Cursor where
  rest : List Char
  pos : Position

def Cursor.start (cs : List Char) : Cursor := ⟨cs, 0, 0, 0⟩

def Cursor.move (n : Nat) (c : Cursor) : Cursor :=
  ⟨c.rest.drop n, (c.rest.take n).foldl Position.after c.pos⟩

/-- A document marker: a character three times at the start of a line, and a blank or break after it. -/
def Cursor.isMarker (mark : Char) (c : Cursor) : Bool :=
  c.pos.column = 0 && c.rest.take 3 == [mark, mark, mark] && blankNext (c.rest.drop 3)

def Cursor.isBoundary (c : Cursor) : Bool := c.isMarker '-' || c.isMarker '.'

/-- Skips blanks, comments and line breaks, and an order mark at the start of a line. Tells whether a
key may come next: outside of brackets every new line allows one. Where a key may come, a tab is no
blank, unless it stands inside brackets. -/
def skipFrom (flow : Bool) : Bool → Bool → List Char → Position → Bool × Cursor
  | _, keys, [], p => (keys, ⟨[], p⟩)
  | comment, keys, ch :: rest, p =>
      if isBreak ch then skipFrom flow false (keys || !flow) rest (p.after ch)
      else if comment || ch = '#' then skipFrom flow true keys rest (p.after ch)
      else if ch = ' ' || (ch = '\t' && (flow || !keys)) || (isOrderMark ch && p.column = 0) then
        skipFrom flow false keys rest (p.after ch)
      else (keys, ⟨ch :: rest, p⟩)

def Cursor.skip (flow keys : Bool) (c : Cursor) : Bool × Cursor :=
  skipFrom flow false keys c.rest c.pos

end SurfaceFabric.Yaml
