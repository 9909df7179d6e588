import SurfaceFabric.Text.Quoted

/-!
Operands of gates. A register or I/O symbol names a logical qubit; a factory symbol names one use
of a factory template, which is bound to a placed factory while the circuit runs.
-/

namespace SurfaceFabric

inductive Symbol
  | register (name : String)
  | io (name : String)
  | factory (template : String) (id : Nat)
  deriving DecidableEq, Repr

namespace Symbol

def isFactory : Symbol → Bool
  | .factory .. => true
  | _ => false

def isIo : Symbol → Bool
  | .io _ => true
  | _ => false

def template? : Symbol → Option String
  | .factory template _ => some template
  | _ => none

def label : Symbol → String
  | .register name => name
  | .io name => "io:" ++ name
  | .factory template id => template ++ "#" ++ toString id

def describe : Symbol → String
  | .register name => "Register(" ++ Text.quoted name ++ ")"
  | .io name => "Io(" ++ Text.quoted name ++ ")"
  | .factory template id =>
      "Extern \x7b template: " ++ Text.quoted template ++ ", id: " ++ toString id ++ " \x7d"

/-- Registers come before I/O symbols and those before factory symbols; names by code point. -/
def le : Symbol → Symbol → Bool
  | .register a, .register b => a ≤ b
  | .register _, _ => true
  | .io _, .register _ => false
  | .io a, .io b => a ≤ b
  | .io _, .factory .. => true
  | .factory s i, .factory t j => s < t || (s == t && i ≤ j)
  | .factory .., _ => false

theorem template?_isSome (s : Symbol) : s.template?.isSome = s.isFactory := by
  cases s <;> rfl

theorem isFactory_of_template? {s : Symbol} {template : String} (h : s.template? = some template) :
    s.isFactory = true := by
  rw [← template?_isSome, h]
  rfl

end Symbol

/-- A block made elsewhere, such as a magic-state factory: its footprint and the cycles of one
production round. -/
structure Template where
  symbol : String
  width : Nat
  height : Nat
  cycles : Nat
  deriving DecidableEq, Repr

end SurfaceFabric
