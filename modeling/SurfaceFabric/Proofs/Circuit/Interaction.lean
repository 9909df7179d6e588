import Mathlib.Logic.Relation
import SurfaceFabric.Proofs.Circuit.ProgramOrder

/-!
Which gates a circuit puts in order. Gates that share an operand have to run in the order in which they were
added. A gate has an edge only from the last gate before it on each of its operands; the gates on one operand
form a chain of such edges, so it takes a path to get from a gate to a later one on the same operand. No edge
joins gates without a common operand, so nothing else is put in order.
-/

namespace SurfaceFabric

namespace Circuit

variable {c : Circuit} {i j : Nat} {s : Symbol}

def Edge (c : Circuit) (i j : Nat) : Prop := i ∈ c.dependencies j

instance (c : Circuit) (i j : Nat) : Decidable (c.Edge i j) :=
  inferInstanceAs (Decidable (i ∈ c.dependencies j))

/-- A gate and a later one that has an operand in common with it. -/
def Interacts (c : Circuit) (i j : Nat) : Prop := i < j ∧ ∃ s, c.ActsOn i s ∧ c.ActsOn j s

theorem Built.interacts_of_edge (h : Built c) (hedge : c.Edge i j) : c.Interacts i j := by
  obtain ⟨s, hj, hprecedes⟩ := h.mem_dependencies_iff.1 hedge
  exact ⟨hprecedes.lt, s, hprecedes.acts, hj⟩

/-- The gates on one operand form a chain. The last edge of the path comes from a gate on the operand that is
not before the first gate, so the rest of the path is shorter. -/
theorem Built.transGen_edge (h : Built c) (hlt : i < j) (hi : c.ActsOn i s) (hj : c.ActsOn j s) :
    Relation.TransGen c.Edge i j := by
  induction j using Nat.strong_induction_on with
  | _ j ih =>
      obtain ⟨p, hp, hle, hacts⟩ := h.exists_dependency hlt hi hj
      obtain rfl | hbetween := Nat.eq_or_lt_of_le hle
      · exact .single hp
      · exact (ih p (h.lt_of_mem_dependencies hp) hbetween hacts).tail hp

theorem Built.transGen_of_interacts (h : Built c) (hij : c.Interacts i j) : Relation.TransGen c.Edge i j := by
  obtain ⟨hlt, s, hi, hj⟩ := hij
  exact h.transGen_edge hlt hi hj

end Circuit

/-- The edges of a circuit put exactly those gates in order that interact, directly or through others. -/
theorem built_orders_interactions {c : Circuit} (hbuilt : c.Built) :
    Relation.TransGen c.Edge = Relation.TransGen c.Interacts ∧
      (∀ i j s, i < j → c.ActsOn i s → c.ActsOn j s → Relation.TransGen c.Edge i j) ∧
      ∀ i j, c.Edge i j → i < j ∧ ∃ s, c.ActsOn i s ∧ c.ActsOn j s := by
  refine ⟨?_, fun i j s => hbuilt.transGen_edge, fun i j => hbuilt.interacts_of_edge⟩
  funext i j
  apply propext
  constructor
  · intro hpath
    exact Relation.TransGen.mono (fun _ _ => hbuilt.interacts_of_edge) _ _ hpath
  · intro hpath
    exact Relation.TransGen.closed (fun _ _ => hbuilt.transGen_of_interacts) _ _ hpath

namespace Braid

/-- The first gate and the last have an operand in common, with two gates on it in between. -/
def circuit : Circuit :=
  (((Circuit.empty.append (.joint "cx" [.register "a", .register "b"] 2)).append
    (.joint "cx" [.register "c", .register "a"] 1)).append
    (.joint "cx" [.register "a", .io "out"] 3)).append (.joint "cx" [.register "d", .register "a"] 1)

theorem built_circuit : circuit.Built :=
  (((Circuit.Built.empty.extend (by decide)).extend (by decide)).extend (by decide)).extend (by decide)

end Braid

theorem braid_ordered : Braid.circuit.Built ∧ ¬Braid.circuit.Edge 0 3 ∧
    Relation.TransGen Braid.circuit.Edge 0 3 ∧ Relation.TransGen Braid.circuit.Interacts 0 3 := by
  obtain ⟨hsame, hpath, -⟩ := built_orders_interactions Braid.built_circuit
  have hordered := hpath 0 3 (.register "a") (by decide) (by decide) (by decide)
  refine ⟨Braid.built_circuit, by decide, hordered, ?_⟩
  rw [← hsame]
  exact hordered

end SurfaceFabric
