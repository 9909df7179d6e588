import SurfaceFabric.Circuit.Slack
import SurfaceFabric.Pool

/-!
Schedules: when each gate of a circuit starts and ends, and which factory it was the first to bind.
Layer `t` lists the gates that start at tick `t` in the order they were admitted.
-/

namespace SurfaceFabric

structure Schedule where
  cycles : Nat
  channels : Nat
  layers : List (List Nat)
  starts : List Nat
  ends : List Nat
  bindings : List (Option Nat)
  deriving DecidableEq, Repr

structure Deadlock where
  cycle : Nat
  waiting : Nat
  deriving DecidableEq, Repr

namespace Schedule

def start? (s : Schedule) (n : Nat) : Option Nat := s.starts[n]?

def finish? (s : Schedule) (n : Nat) : Option Nat := s.ends[n]?

def binding? (s : Schedule) (n : Nat) : Option Nat := s.bindings[n]?.join

end Schedule

/-- Groups nodes by tick over `cycles` ticks, in the order given. -/
def layersOf (cycles : Nat) (starts : List (Nat × Nat)) : List (List Nat) :=
  (List.range cycles).map fun t => (starts.filter fun s => s.2 == t).map Prod.fst

@[simp] theorem layersOf_length (cycles : Nat) (starts : List (Nat × Nat)) :
    (layersOf cycles starts).length = cycles := by
  simp [layersOf]

theorem mem_layersOf {cycles t n : Nat} {starts : List (Nat × Nat)}
    (hstarts : ∀ s ∈ starts, s.2 < cycles) :
    n ∈ (layersOf cycles starts)[t]?.getD [] ↔ (n, t) ∈ starts := by
  by_cases ht : t < cycles
  · simp [layersOf, ht]
  · have hnone : (layersOf cycles starts)[t]? = none := by
      simp [layersOf]
      omega
    rw [hnone]
    simp only [Option.getD_none, List.not_mem_nil, false_iff]
    intro hmem
    exact ht (hstarts _ hmem)

theorem nodup_of_mem_layersOf {cycles : Nat} {starts : List (Nat × Nat)} {layer : List Nat}
    (hnodup : (starts.map Prod.fst).Nodup) (h : layer ∈ layersOf cycles starts) : layer.Nodup := by
  simp only [layersOf, List.mem_map] at h
  obtain ⟨t, -, rfl⟩ := h
  exact hnodup.sublist (List.filter_sublist.map _)

end SurfaceFabric
