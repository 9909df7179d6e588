/-!
JSON values and a strict reader for them. The reader is total on lists of characters: each small
reader consumes a front part and returns the rest. Numbers keep apart whether they were written as
integers, and a string whose escapes name half a surrogate pair is a value that holds no text.
-/

namespace SurfaceFabric

inductive Json
  | null
  | bool (b : Bool)
  | int (n : Int)
  | real (written : List Char)
  | text (content : Option String)
  | list (items : List Json)
  | record (members : List (Option String × Json))

namespace Json

def nat (n : Nat) : Json := .int (Int.ofNat n)

def str (s : String) : Json := .text (some s)

def obj (members : List (String × Json)) : Json :=
  .record (members.map fun m => (some m.1, m.2))

def option {α : Type} (write : α → Json) : Option α → Json
  | some a => write a
  | none => .null

def array {α : Type} (write : α → Json) (items : List α) : Json :=
  .list (items.map write)

def member? (name : String) : Json → Option Json
  | .record members => (members.find? fun m => m.1 == some name).map Prod.snd
  | _ => none

def isBlank (c : Char) : Bool := c = ' ' || c = '\n' || c = '\t' || c = '\r'

def skipBlanks (cs : List Char) : List Char := cs.dropWhile isBlank

def hexValue (c : Char) : Option Nat :=
  if '0' ≤ c ∧ c ≤ '9' then some (c.toNat - 48)
  else if 'a' ≤ c ∧ c ≤ 'f' then some (c.toNat - 87)
  else if 'A' ≤ c ∧ c ≤ 'F' then some (c.toNat - 55)
  else none

def hexUnit (a b c d : Char) : Option Nat := do
  let a ← hexValue a
  let b ← hexValue b
  let c ← hexValue c
  let d ← hexValue d
  return ((a * 16 + b) * 16 + c) * 16 + d

def escaped (c : Char) : Option Char :=
  if c = '"' ∨ c = '\\' ∨ c = '/' then some c
  else if c = 'b' then some (Char.ofNat 8)
  else if c = 'f' then some (Char.ofNat 12)
  else if c = 'n' then some '\n'
  else if c = 'r' then some '\r'
  else if c = 't' then some '\t'
  else none

/-- Code units of a string after its opening quote, and what follows its closing quote. -/
def units : List Char → Option (List Nat × List Char)
  | [] => none
  | '"' :: rest => some ([], rest)
  | '\\' :: 'u' :: a :: b :: c :: d :: rest => do
      let n ← hexUnit a b c d
      let (us, rest) ← units rest
      return (n :: us, rest)
  | '\\' :: c :: rest => do
      let e ← escaped c
      let (us, rest) ← units rest
      return (e.toNat :: us, rest)
  | c :: rest =>
      if c.toNat < 32 ∨ c = '\\' then none
      else do
        let (us, rest) ← units rest
        return (c.toNat :: us, rest)

def isHighSurrogate (n : Nat) : Bool := 0xD800 ≤ n && n < 0xDC00

def isLowSurrogate (n : Nat) : Bool := 0xDC00 ≤ n && n < 0xE000

/-- Text of a list of code units; halves of surrogate pairs must stand together. -/
def textOfUnits : List Nat → Option (List Char)
  | [] => some []
  | high :: low :: rest =>
      if isHighSurrogate high then
        if isLowSurrogate low then
          (textOfUnits rest).map
            (Char.ofNat (0x10000 + (high - 0xD800) * 0x400 + (low - 0xDC00)) :: ·)
        else none
      else if isLowSurrogate high then none
      else (textOfUnits (low :: rest)).map (Char.ofNat high :: ·)
  | [n] => if isHighSurrogate n || isLowSurrogate n then none else some [Char.ofNat n]

def readText (cs : List Char) : Option (Option String × List Char) := do
  let (us, rest) ← units cs
  return ((textOfUnits us).map String.ofList, rest)

def natOfDigits (ds : List Char) : Nat :=
  ds.foldl (fun n d => n * 10 + (d.toNat - 48)) 0

/-- Digits of a whole part: a lone zero, or digits that do not start with one. -/
def wholeDigits : List Char → Option (List Char × List Char)
  | '0' :: rest =>
      match rest with
      | c :: _ => if c.isDigit then none else some (['0'], rest)
      | [] => some (['0'], [])
  | cs =>
      let ds := cs.takeWhile Char.isDigit
      if ds.isEmpty then none else some (ds, cs.dropWhile Char.isDigit)

def fractionDigits : List Char → Option (List Char × List Char)
  | '.' :: rest =>
      let ds := rest.takeWhile Char.isDigit
      if ds.isEmpty then none else some ('.' :: ds, rest.dropWhile Char.isDigit)
  | cs => some ([], cs)

def exponentSign : List Char → List Char × List Char
  | '+' :: rest => (['+'], rest)
  | '-' :: rest => (['-'], rest)
  | cs => ([], cs)

def exponentDigits : List Char → Option (List Char × List Char)
  | [] => some ([], [])
  | c :: rest =>
      if c = 'e' ∨ c = 'E' then
        let (sign, rest) := exponentSign rest
        let ds := rest.takeWhile Char.isDigit
        if ds.isEmpty then none else some (c :: sign ++ ds, rest.dropWhile Char.isDigit)
      else some ([], c :: rest)

/-- Negative zero is no integer. -/
def numberOf (negative : Bool) (whole tail : List Char) : Json :=
  if tail.isEmpty then
    let n := natOfDigits whole
    if !negative then .int n
    else if n = 0 then .real ('-' :: whole) else .int (-n)
  else .real ((if negative then ['-'] else []) ++ whole ++ tail)

def unsigned (negative : Bool) (cs : List Char) : Option (Json × List Char) := do
  let (whole, rest) ← wholeDigits cs
  let (fraction, rest) ← fractionDigits rest
  let (exponent, rest) ← exponentDigits rest
  return (numberOf negative whole (fraction ++ exponent), rest)

def number : List Char → Option (Json × List Char)
  | '-' :: rest => unsigned true rest
  | cs => unsigned false cs

mutual

def value : Nat → List Char → Option (Json × List Char)
  | 0, _ => none
  | fuel + 1, cs =>
      match skipBlanks cs with
      | 'n' :: 'u' :: 'l' :: 'l' :: rest => some (.null, rest)
      | 't' :: 'r' :: 'u' :: 'e' :: rest => some (.bool true, rest)
      | 'f' :: 'a' :: 'l' :: 's' :: 'e' :: rest => some (.bool false, rest)
      | '"' :: rest => (readText rest).map fun (s, rest) => (.text s, rest)
      | '[' :: rest =>
          match skipBlanks rest with
          | ']' :: rest => some (.list [], rest)
          | rest => (items fuel rest).map fun (xs, rest) => (.list xs, rest)
      | '\x7b' :: rest =>
          match skipBlanks rest with
          | '\x7d' :: rest => some (.record [], rest)
          | rest => (members fuel rest).map fun (ms, rest) => (.record ms, rest)
      | cs => number cs

def items : Nat → List Char → Option (List Json × List Char)
  | 0, _ => none
  | fuel + 1, cs => do
      let (x, rest) ← value fuel cs
      match skipBlanks rest with
      | ',' :: rest =>
          let (xs, rest) ← items fuel rest
          return (x :: xs, rest)
      | ']' :: rest => return ([x], rest)
      | _ => none

def members : Nat → List Char → Option (List (Option String × Json) × List Char)
  | 0, _ => none
  | fuel + 1, cs =>
      match skipBlanks cs with
      | '"' :: rest => do
          let (name, rest) ← readText rest
          match skipBlanks rest with
          | ':' :: rest =>
              let (v, rest) ← value fuel rest
              match skipBlanks rest with
              | ',' :: rest =>
                  let (ms, rest) ← members fuel rest
                  return ((name, v) :: ms, rest)
              | '\x7d' :: rest => return ([(name, v)], rest)
              | _ => none
          | _ => none
      | _ => none

end

/-- A value and nothing but blanks around it. Every level and every element uses up a character,
so twice the length is fuel enough. -/
def ofChars? (cs : List Char) : Option Json := do
  let (v, rest) ← value (2 * cs.length + 2) cs
  if (skipBlanks rest).isEmpty then some v else none

def ofString? (s : String) : Option Json := ofChars? s.toList

end Json

end SurfaceFabric
