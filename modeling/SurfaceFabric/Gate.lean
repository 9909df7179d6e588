import SurfaceFabric.Symbol
import SurfaceFabric.Word

/-!
Gates: operations of a fixed number of cycles on some operands. What a gate computes plays no part;
only its operands, its length and its use of factories do.
-/

namespace SurfaceFabric

def Template.area (t : Template) : Checked Nat := Word.mul t.width t.height

inductive GateKind
  | operation
  | reset
  deriving DecidableEq, Repr

structure Gate where
  name : String
  operands : List Symbol
  cycles : Nat
  kind : GateKind
  deriving DecidableEq, Repr

namespace Gate

def single (name : String) (operand : Symbol) (cycles : Nat) : Gate :=
  ⟨name, [operand], cycles, .operation⟩

def joint (name : String) (operands : List Symbol) (cycles : Nat) : Gate :=
  ⟨name, operands, cycles, .operation⟩

def production (s : Symbol) (cycles : Nat) : Gate :=
  ⟨"factory[" ++ s.label ++ "]", [s], cycles, .operation⟩

/-- Gives the factory bound to `s` back. -/
def resetOf (s : Symbol) : Gate :=
  ⟨"reset[" ++ s.label ++ "]", [s], 1, .reset⟩

def isNonLocal (g : Gate) : Bool := 1 < g.operands.length

def isReset (g : Gate) : Bool := g.kind == .reset

def factoryOperand? (g : Gate) : Option Symbol := g.operands.find? Symbol.isFactory

def requiredTemplate? (g : Gate) : Option String := g.factoryOperand?.bind Symbol.template?

/-- An operation whose only operand is a factory symbol. -/
def isProduction (g : Gate) : Bool :=
  g.kind == .operation && g.operands.length == 1 && g.operands.all Symbol.isFactory

end Gate

inductive CircuitError
  | noOperands (gate : String)
  | repeatedOperand (symbol : Symbol) (gate : String)
  | noCycles (gate : String)
  | badReset (operands : List Symbol)
  | unknownNode
  deriving DecidableEq, Repr

def CircuitError.message : CircuitError → String
  | .noOperands gate => "Gate '" ++ gate ++ "' has no operands"
  | .repeatedOperand symbol gate =>
      "Duplicate operand " ++ symbol.label ++ " in gate '" ++ gate ++ "'"
  | .noCycles gate => "Gate '" ++ gate ++ "' must take at least one cycle"
  | .badReset operands =>
      "Reset must target exactly one extern symbol, got ["
        ++ ", ".intercalate (operands.map Symbol.describe) ++ "]"
  | .unknownNode => "Invalid node index"

end SurfaceFabric
