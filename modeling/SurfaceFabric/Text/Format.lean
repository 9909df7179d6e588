import SurfaceFabric.Word

/-!
Reading typed values from a text format. A format says what each of its values can be read as; readers
of records and variants are written once for all formats.
-/

namespace SurfaceFabric

/-- The contents of a record: members by name, or values in the order of the fields. -/
inductive Fields (α : Type)
  | named (members : List (String × α))
  | listed (items : List α)

/-- What the values of a format can be read as. A variant has a name and may carry a value. -/
structure Format (α : Type) where
  nat? : α → Option Nat
  bool? : α → Option Bool
  text? : α → Option String
  isNull : α → Bool
  items? : α → Option (List α)
  fields? : α → Option (Fields α)
  variant? : α → Option (String × Option α)

/-- Values of the known fields in order. Other members are ignored, but no known one may be repeated,
and a list may not be longer than the fields are. -/
def Fields.pick? {α : Type} (names : List String) : Fields α → Option (List (Option α))
  | .named members =>
      names.mapM fun name =>
        match members.filter fun m => m.1 == name with
        | [] => some none
        | [m] => some (some m.2)
        | _ => none
  | .listed items =>
      if items.length ≤ names.length then
        some (items.map some ++ List.replicate (names.length - items.length) none)
      else none

namespace Format

variable {α β : Type}

def bounded? (f : Format α) (top : Nat) (v : α) : Option Nat :=
  (f.nat? v).bind fun n => if n ≤ top then some n else none

def word? (f : Format α) : α → Option Nat := f.bounded? Word.top

def long? (f : Format α) : α → Option Nat := f.bounded? Long.top

def list? (f : Format α) (read : α → Option β) (v : α) : Option (List β) :=
  (f.items? v).bind fun items => items.mapM read

def option? (f : Format α) (read : α → Option β) (v : α) : Option (Option β) :=
  if f.isNull v then some none else (read v).map some

def record? (f : Format α) (names : List String) (v : α) : Option (List (Option α)) :=
  (f.fields? v).bind (Fields.pick? names)

def unit? (f : Format α) (payload : Option α) : Option Unit :=
  match payload with
  | none => some ()
  | some v => if f.isNull v then some () else none

end Format

def orDefault {α β : Type} (d : β) (read : α → Option β) : Option α → Option β
  | none => some d
  | some v => read v

end SurfaceFabric
