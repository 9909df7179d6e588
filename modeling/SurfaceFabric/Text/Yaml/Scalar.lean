import SurfaceFabric.Text.Yaml.Cursor

/-!
Scalars of a YAML document, plain and quoted. A scalar may run over several lines, and its line breaks
are folded then: a single line feed becomes a blank, of several the first is dropped.
-/

namespace SurfaceFabric.Yaml

/-- Blanks and line breaks since the last other character of a scalar, the latest first. A gap that is
`joined` starts with an escaped line break. -/
structure Gap where
  joined : Bool
  blanks : List Char
  breaks : List Char

def Gap.empty : Gap := ⟨false, [], []⟩

def Gap.isEmpty (g : Gap) : Bool := !g.joined && g.blanks.isEmpty && g.breaks.isEmpty

/-- Blanks count only before the first break. -/
def Gap.push (g : Gap) (ch : Char) : Gap :=
  if isBreak ch then { g with breaks := ch :: g.breaks }
  else if g.joined || !g.breaks.isEmpty then g
  else { g with blanks := ch :: g.blanks }

def Gap.text (g : Gap) : List Char :=
  if g.joined then g.breaks.reverse
  else match g.breaks.reverse with
    | [] => g.blanks.reverse
    | ['\n'] => [' ']
    | '\n' :: later => later
    | breaks => breaks

def Gap.close (g : Gap) (text : List Char) : List Char := g.text.reverse ++ text

def flowMarks : List Char := [',', '[', ']', '\x7b', '\x7d']

def stopsPlain (flow : Bool) : List Char → Bool
  | [] => true
  | ch :: rest => (ch = ':' && blankNext rest) || (flow && ch ∈ flowMarks)

/-- A colon inside brackets that neither ends a plain scalar nor can be part of it. -/
def isStrayColon (flow : Bool) : List Char → Bool
  | ':' :: ch :: _ => flow && ch ∈ '?' :: flowMarks
  | _ => false

/-- A plain scalar after its first characters `text`, with the gap behind it. Outside of brackets its
further lines start at column `low` or later, and no tab stands before that column. -/
def plainFrom (flow : Bool) (low : Nat) :
    Gap → List Char → List Char → Position → Option (List Char × Gap × Cursor)
  | gap, text, [], p => some (text.reverse, gap, ⟨[], p⟩)
  | gap, text, ch :: rest, p =>
      if isBlank ch || isBreak ch then
        if ch = '\t' && !gap.breaks.isEmpty && p.column < low then none
        else plainFrom flow low (gap.push ch) text rest (p.after ch)
      else if !gap.isEmpty &&
          (ch = '#' || (!flow && p.column < low) || Cursor.isBoundary ⟨ch :: rest, p⟩) then
        some (text.reverse, gap, ⟨ch :: rest, p⟩)
      else if isStrayColon flow (ch :: rest) then none
      else if stopsPlain flow (ch :: rest) then some (text.reverse, gap, ⟨ch :: rest, p⟩)
      else plainFrom flow low .empty (ch :: gap.close text) rest (p.after ch)

def indicators : List Char :=
  ['-', '?', ':', ',', '[', ']', '\x7b', '\x7d', '#', '&', '*', '!', '|', '>', '\'', '"', '%', '@',
    Char.ofNat 96]

/-- A dash, and outside of brackets a question mark or colon, may start a plain scalar if no blank
follows. -/
def startsPlain (flow : Bool) : List Char → Bool
  | [] => false
  | ch :: rest =>
      !blankNext [ch] && (ch ∉ indicators || (ch = '-' && !blankNext rest)
        || (!flow && (ch = '?' || ch = ':') && !blankNext rest))

def hexDigit? (ch : Char) : Option Nat :=
  if '0' ≤ ch ∧ ch ≤ '9' then some (ch.toNat - 48)
  else if 'a' ≤ ch ∧ ch ≤ 'f' then some (ch.toNat - 87)
  else if 'A' ≤ ch ∧ ch ≤ 'F' then some (ch.toNat - 55)
  else none

def charOf? (code : Nat) : Option Char :=
  if 0x10FFFF < code ∨ (0xD800 ≤ code ∧ code ≤ 0xDFFF) then none else some (Char.ofNat code)

def simpleEscapes : List (Char × Nat) :=
  [('0', 0), ('a', 7), ('b', 8), ('t', 9), ('\t', 9), ('n', 10), ('v', 11), ('f', 12), ('r', 13),
    ('e', 27), (' ', 32), ('"', 34), ('/', 47), ('\\', 92), ('N', 0x85), ('_', 0xA0), ('L', 0x2028),
    ('P', 0x2029)]

/-- Escapes by the code of a character, each with the number of its digits after the first. -/
def codedEscapes : List (Char × Nat) := [('x', 1), ('u', 3), ('U', 7)]

/-- What the next character of a quoted scalar belongs to: its text, an escape after the backslash, or
the code of a character of which so many digits follow after the next one. -/
inductive QuotedPart
  | text
  | escape
  | code (more value : Nat)

/-- A quoted scalar after its opening quote and the characters `text`. -/
def quotedFrom (double : Bool) :
    QuotedPart → Gap → List Char → List Char → Position → Option (List Char × Cursor)
  | _, _, _, [], _ => none
  | .code more value, gap, text, ch :: rest, p =>
      match hexDigit? ch with
      | none => none
      | some digit =>
          let value := value * 16 + digit
          match more with
          | more + 1 => quotedFrom double (.code more value) gap text rest (p.after ch)
          | 0 =>
              match charOf? value with
              | none => none
              | some coded => quotedFrom double .text gap (coded :: text) rest (p.after ch)
  | .escape, gap, text, ch :: rest, p =>
      if isBreak ch then quotedFrom double .text { gap with joined := true } text rest (p.after ch)
      else match codedEscapes.lookup ch with
        | some more => quotedFrom double (.code more 0) gap text rest (p.after ch)
        | none =>
            match simpleEscapes.lookup ch with
            | none => none
            | some code =>
                quotedFrom double .text gap (Char.ofNat code :: text) rest (p.after ch)
  | .text, gap, text, ch :: rest, p =>
      if isBlank ch || isBreak ch then quotedFrom double .text (gap.push ch) text rest (p.after ch)
      else if Cursor.isBoundary ⟨ch :: rest, p⟩ then none
      else if double && ch = '\\' then
        quotedFrom double .escape .empty (gap.close text) rest (p.after ch)
      else if double && ch = '"' then some ((gap.close text).reverse, ⟨rest, p.after ch⟩)
      else if !double && ch = '\'' then
        match rest with
        | '\'' :: more =>
            quotedFrom double .text .empty ('\'' :: gap.close text) more ((p.after ch).after '\'')
        | _ => some ((gap.close text).reverse, ⟨rest, p.after ch⟩)
      else quotedFrom double .text .empty (ch :: gap.close text) rest (p.after ch)

end SurfaceFabric.Yaml
