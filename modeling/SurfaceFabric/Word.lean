/-!
Arithmetic on words of fixed width. Values are natural numbers; an operation whose result leaves
the word stops with a fault, which is kept apart from every refusal of the fabric itself.
-/

namespace SurfaceFabric

/-- Why a computation stops without any answer: a number leaves its word, a path is asked for between
operands on one cell, or there are no segment numbers left. -/
inductive Fault
  | overflow
  | sharedCell
  | idsExhausted
  deriving DecidableEq, Repr

abbrev Checked (α : Type) := Except Fault α

namespace Word

def top : Nat := 4294967295

def add (a b : Nat) : Checked Nat :=
  if a + b ≤ top then .ok (a + b) else .error .overflow

def sub (a b : Nat) : Checked Nat :=
  if b ≤ a then .ok (a - b) else .error .overflow

def mul (a b : Nat) : Checked Nat :=
  if a * b ≤ top then .ok (a * b) else .error .overflow

theorem add_eq_ok_iff {a b n : Nat} : add a b = .ok n ↔ a + b ≤ top ∧ n = a + b := by
  by_cases h : a + b ≤ top
  · simp [add, h, eq_comm]
  · simp [add, h]

theorem sub_eq_ok_iff {a b n : Nat} : sub a b = .ok n ↔ b ≤ a ∧ n = a - b := by
  by_cases h : b ≤ a
  · simp [sub, h, eq_comm]
  · simp [sub, h]

theorem mul_eq_ok_iff {a b n : Nat} : mul a b = .ok n ↔ a * b ≤ top ∧ n = a * b := by
  by_cases h : a * b ≤ top
  · simp [mul, h, eq_comm]
  · simp [mul, h]

end Word

namespace Long

def top : Nat := 18446744073709551615

def add (a b : Nat) : Checked Nat :=
  if a + b ≤ top then .ok (a + b) else .error .overflow

def mul (a b : Nat) : Checked Nat :=
  if a * b ≤ top then .ok (a * b) else .error .overflow

def sum : List Nat → Checked Nat
  | [] => .ok 0
  | a :: rest => do add a (← sum rest)

theorem add_eq_ok_iff {a b n : Nat} : add a b = .ok n ↔ a + b ≤ top ∧ n = a + b := by
  by_cases h : a + b ≤ top
  · simp [add, h, eq_comm]
  · simp [add, h]

theorem mul_eq_ok_iff {a b n : Nat} : mul a b = .ok n ↔ a * b ≤ top ∧ n = a * b := by
  by_cases h : a * b ≤ top
  · simp [mul, h, eq_comm]
  · simp [mul, h]

end Long

inductive Stop (ε : Type)
  | fault (f : Fault)
  | refused (e : ε)
  deriving Repr

abbrev Outcome (ε α : Type) := Except (Stop ε) α

namespace Outcome

def ofChecked {ε α : Type} : Checked α → Outcome ε α
  | .ok a => .ok a
  | .error f => .error (.fault f)

def refuse {ε α : Type} (e : ε) : Outcome ε α := .error (.refused e)

def ofOption {ε α : Type} (e : ε) : Option α → Outcome ε α
  | some a => .ok a
  | none => refuse e

def mapRefusal {ε δ α : Type} (g : ε → δ) : Outcome ε α → Outcome δ α
  | .ok a => .ok a
  | .error (.fault f) => .error (.fault f)
  | .error (.refused e) => .error (.refused (g e))

/-- The answer with a refusal as an ordinary value; only faults remain outside. -/
def settle {ε α : Type} : Outcome ε α → Checked (Except ε α)
  | .ok a => .ok (.ok a)
  | .error (.fault f) => .error f
  | .error (.refused e) => .ok (.error e)

/-- Forgets why an operation was refused, but not that it faulted. -/
def toOption {ε α : Type} : Outcome ε α → Checked (Option α)
  | .ok a => .ok (some a)
  | .error (.fault f) => .error f
  | .error (.refused _) => .ok none

@[simp] theorem ofChecked_ok {ε α : Type} (a : α) :
    (ofChecked (.ok a) : Outcome ε α) = .ok a := rfl

@[simp] theorem mapRefusal_ok {ε δ α : Type} (g : ε → δ) (a : α) :
    mapRefusal g (.ok a) = .ok a := rfl

end Outcome

instance {ε : Type} : MonadLift (Except Fault) (Except (Stop ε)) := ⟨Outcome.ofChecked⟩

end SurfaceFabric
