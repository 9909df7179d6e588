import SurfaceFabric.Proofs.Pool.Protocol
import SurfaceFabric.Proofs.SlotTree.Allocate
import SurfaceFabric.Proofs.SlotTree.Build

/-!
What a slot tree has to give. Its wares are the slots that its leaves still offer, and the root of a tree that
has been counted knows how many there are of each kind. A request takes one of its kind, so a tree that is
asked for a kind as often as it counts it gives all of this kind away and nothing else.
-/

namespace SurfaceFabric

def SlotNodeKind.wares : SlotNodeKind → List (SlotKind × Slot)
  | .cells _ kind left => left.map fun c => (kind, ⟨c, none⟩)
  | .factory _ handle template entrance false => [(.factory template, ⟨entrance, some handle⟩)]
  | _ => []

namespace SlotNodeKind

variable {k : SlotNodeKind} {kind : SlotKind}

theorem wares_of_inner (h : k.isLeaf = false) : k.wares = [] := by
  cases k with
  | cells segment kind left => cases h
  | factory segment handle template entrance taken => cases h
  | route segment => rfl
  | junction => rfl

theorem length_wares (k : SlotNodeKind) (kind : SlotKind) :
    (k.wares.filter fun w => w.1 = kind).length = k.stock kind := by
  cases k with
  | cells segment kind' left =>
      by_cases heq : kind' = kind
      · simp [wares, stock, heq, List.filter_map, Function.comp_def]
      · simp [wares, stock, heq, Ne.symm heq]
  | factory segment handle template entrance taken =>
      cases taken with
      | true => simp [wares, stock]
      | false =>
          by_cases heq : SlotKind.factory template = kind
          · simp [wares, stock, heq]
          · simp [wares, stock, heq, Ne.symm heq]
  | route segment => rfl
  | junction => rfl

/-- The cells on offer are the wares that are no factories. -/
theorem slots_eq (k : SlotNodeKind) :
    k.slots = (k.wares.filter fun w => w.2.handle.isNone).map fun w => (w.1, w.2.cell) := by
  cases k with
  | cells segment kind left => simp [slots, wares, List.filter_map, Function.comp_def]
  | factory segment handle template entrance taken => cases taken <;> simp [slots, wares]
  | route segment => rfl
  | junction => rfl

end SlotNodeKind

theorem SlotTree.Hands.wares {kind : SlotKind} {slot : Slot} {k rest : SlotNodeKind}
    (h : SlotTree.Hands kind slot k rest) : k.wares = (kind, slot) :: rest.wares := by
  cases h with
  | cell segment kind c left => rfl
  | factory segment handle template entrance => rfl

namespace SlotTree

variable {t u : SlotTree} {rank : Nat → Nat} {kind : SlotKind}

def wares (t : SlotTree) : List (SlotKind × Slot) := t.kinds.flatMap SlotNodeKind.wares

theorem offered_eq (t : SlotTree) :
    t.offered = (t.wares.filter fun w => w.2.handle.isNone).map fun w => (w.1, w.2.cell) := by
  rw [offered, wares, List.filter_flatMap, List.map_flatMap]
  simp only [← SlotNodeKind.slots_eq]

structure Audited (t : SlotTree) (rank : Nat → Nat) : Prop where
  stocked : Stocked t rank
  capacity_eq : ∀ kind, t.capacity kind = (t.wares.filter fun w => w.1 = kind).length

theorem length_filter_wares (ks : List SlotNodeKind) (kind : SlotKind) :
    ((ks.flatMap SlotNodeKind.wares).filter fun w => w.1 = kind).length =
      (ks.map (SlotNodeKind.stock kind)).sum := by
  induction ks with
  | nil => rfl
  | cons k ks ih =>
      rw [List.flatMap_cons, List.filter_append, List.length_append, ih, SlotNodeKind.length_wares,
        List.map_cons, List.sum_cons]

namespace Audited

theorem exists_alloc (h : Audited t rank) (hpos : 0 < t.capacity kind) :
    ∃ slot u, t.alloc? kind = some (slot, u) ∧ Audited u rank ∧
      t.wares.Perm ((kind, slot) :: u.wares) := by
  obtain ⟨slot, u, leaf, k, rest, halloc, hstocked, hk, hands, hkinds, hcounts⟩ :=
    h.stocked.exists_alloc hpos
  have hperm : t.wares.Perm ((kind, slot) :: u.wares) := by
    rw [wares, wares, hkinds]
    exact flatMap_set_perm hk (.of_eq hands.wares)
  refine ⟨slot, u, halloc, ⟨hstocked, fun kind' => ?_⟩, hperm⟩
  have hlength := (hperm.filter fun w => w.1 = kind').length_eq
  rw [List.filter_cons, ← h.capacity_eq] at hlength
  rw [hcounts]
  by_cases heq : kind = kind'
  · simp only [heq, decide_true, if_true, List.length_cons] at hlength ⊢
    omega
  · simp only [heq, decide_false, Bool.false_eq_true, if_false] at hlength
    rw [if_neg (Ne.symm heq), Nat.sub_zero, hlength]

/-- Asking for a kind no more often than the root counts it: every request is met. -/
theorem drain {n : Nat} (h : Audited t rank) (hn : n ≤ t.capacity kind) :
    Audited (t.drain kind n).2 rank ∧ (t.drain kind n).1.length = n ∧
      t.wares.Perm ((t.drain kind n).1.map (fun slot => (kind, slot)) ++ (t.drain kind n).2.wares) := by
  induction n generalizing t with
  | zero => exact ⟨h, rfl, .refl _⟩
  | succ n ih =>
      have hpos : 0 < t.capacity kind := by omega
      obtain ⟨slot, u, halloc, hu, hperm⟩ := h.exists_alloc hpos
      have hleft : n ≤ u.capacity kind := by
        have hlength := (hperm.filter fun w => w.1 = kind).length_eq
        rw [List.filter_cons, ← h.capacity_eq, if_pos (by simp), List.length_cons, ← hu.capacity_eq] at hlength
        omega
      obtain ⟨haudited, hlength, hrest⟩ := ih hu hleft
      rw [SlotTree.drain, halloc]
      refine ⟨haudited, by simpa using hlength, ?_⟩
      exact hperm.trans (hrest.cons _)

/-- A kind that is asked for as often as the root counts it is gone afterwards. -/
theorem drain_all (h : Audited t rank) (kind : SlotKind) :
    ∀ w ∈ (t.drain kind (t.capacity kind)).2.wares, w.1 ≠ kind := by
  obtain ⟨-, hlength, hperm⟩ := h.drain (Nat.le_refl (t.capacity kind))
  have hcount := (hperm.filter fun w => w.1 = kind).length_eq
  have hall : (((t.drain kind (t.capacity kind)).1.map fun slot => (kind, slot)).filter fun w => w.1 = kind) =
      (t.drain kind (t.capacity kind)).1.map fun slot => (kind, slot) := by
    simp [List.filter_map, Function.comp_def]
  rw [← h.capacity_eq, List.filter_append, List.length_append, hall, List.length_map, hlength] at hcount
  intro w hw heq
  have hmem : w ∈ (t.drain kind (t.capacity kind)).2.wares.filter fun w => w.1 = kind :=
    List.mem_filter.2 ⟨hw, decide_eq_true heq⟩
  have := List.length_pos_of_mem hmem
  omega

end Audited

end SlotTree

end SurfaceFabric
