import SurfaceFabric.SlotKind

/-!
Tallies: how many slots there are of each kind. Kinds that are not listed count zero.
-/

namespace SurfaceFabric

structure Tally where
  entries : List (SlotKind × Nat)
  deriving DecidableEq, Repr

namespace Tally

def empty : Tally := ⟨[]⟩

def countIn (kind : SlotKind) : List (SlotKind × Nat) → Nat
  | [] => 0
  | (k, n) :: rest => if k = kind then n else countIn kind rest

def count (t : Tally) (kind : SlotKind) : Nat := countIn kind t.entries

def addIn (kind : SlotKind) (n : Nat) : List (SlotKind × Nat) → List (SlotKind × Nat)
  | [] => [(kind, n)]
  | (k, m) :: rest => if k = kind then (k, m + n) :: rest else (k, m) :: addIn kind n rest

def add (t : Tally) (kind : SlotKind) (n : Nat) : Tally := ⟨addIn kind n t.entries⟩

def union (t u : Tally) : Tally := u.entries.foldl (fun t e => t.add e.1 e.2) t

def spendIn (kind : SlotKind) : List (SlotKind × Nat) → List (SlotKind × Nat)
  | [] => []
  | (k, n) :: rest => if k = kind then (k, n - 1) :: rest else (k, n) :: spendIn kind rest

def spend (t : Tally) (kind : SlotKind) : Tally := ⟨spendIn kind t.entries⟩

@[simp] theorem count_empty (kind : SlotKind) : empty.count kind = 0 := rfl

@[simp] theorem count_add (t : Tally) (kind k : SlotKind) (n : Nat) :
    (t.add kind n).count k = t.count k + if k = kind then n else 0 := by
  obtain ⟨entries⟩ := t
  simp only [add, count]
  induction entries with
  | nil => grind [addIn, countIn]
  | cons e rest ih => grind [addIn, countIn]

@[simp] theorem count_spend (t : Tally) (kind k : SlotKind) :
    (t.spend kind).count k = t.count k - if k = kind then 1 else 0 := by
  obtain ⟨entries⟩ := t
  simp only [spend, count]
  induction entries with
  | nil => grind [spendIn, countIn]
  | cons e rest ih => grind [spendIn, countIn]

def Keyed (t : Tally) : Prop := (t.entries.map Prod.fst).Nodup

theorem keyed_empty : empty.Keyed := List.nodup_nil

theorem mem_addIn {kind k : SlotKind} {n : Nat} {l : List (SlotKind × Nat)} :
    k ∈ (addIn kind n l).map Prod.fst ↔ k = kind ∨ k ∈ l.map Prod.fst := by
  induction l with
  | nil => simp [addIn]
  | cons e rest ih =>
      simp only [addIn]
      split
      · next h => simp [h]
      · simp only [List.map_cons, List.mem_cons, ih]
        exact or_left_comm

theorem Keyed.add {t : Tally} (h : t.Keyed) (kind : SlotKind) (n : Nat) : (t.add kind n).Keyed := by
  obtain ⟨entries⟩ := t
  simp only [Tally.add, Keyed] at h ⊢
  induction entries with
  | nil => simp [addIn]
  | cons e rest ih =>
      obtain ⟨hnew, hrest⟩ := List.nodup_cons.1 h
      simp only [addIn]
      split
      · exact h
      · next hne =>
          refine List.nodup_cons.2 ⟨fun hmem => ?_, ih hrest⟩
          rcases mem_addIn.1 hmem with heq | hmem
          · exact hne heq
          · exact hnew hmem

theorem Keyed.spend {t : Tally} (h : t.Keyed) (kind : SlotKind) : (t.spend kind).Keyed := by
  obtain ⟨entries⟩ := t
  have hkeys : (spendIn kind entries).map Prod.fst = entries.map Prod.fst := by
    induction entries with
    | nil => rfl
    | cons e rest ih =>
        simp only [spendIn]
        split
        · rfl
        · rw [List.map_cons, List.map_cons, ih (List.nodup_cons.1 h).2]
  unfold Tally.spend Keyed
  rw [hkeys]
  exact h

theorem countIn_eq_zero {kind : SlotKind} {l : List (SlotKind × Nat)} (h : kind ∉ l.map Prod.fst) :
    countIn kind l = 0 := by
  induction l with
  | nil => rfl
  | cons e rest ih =>
      simp only [List.map_cons, List.mem_cons, not_or] at h
      rw [countIn, if_neg (Ne.symm h.1), ih h.2]

theorem Keyed.union {t : Tally} (h : t.Keyed) (u : Tally) : (t.union u).Keyed := by
  obtain ⟨entries⟩ := u
  unfold Tally.union
  induction entries generalizing t with
  | nil => exact h
  | cons e rest ih => exact ih (h.add e.1 e.2)

theorem count_union (t : Tally) {u : Tally} (h : u.Keyed) (kind : SlotKind) :
    (t.union u).count kind = t.count kind + u.count kind := by
  obtain ⟨entries⟩ := u
  unfold Tally.union
  induction entries generalizing t with
  | nil => simp [count, countIn]
  | cons e rest ih =>
      obtain ⟨hnew, hrest⟩ := List.nodup_cons.1 h
      rw [List.foldl_cons, ih (t.add e.1 e.2) hrest, count_add]
      simp only [count, countIn]
      by_cases hk : e.1 = kind
      · have hzero : countIn kind rest = 0 := countIn_eq_zero (hk ▸ hnew)
        rw [if_pos hk, if_pos hk.symm, hzero]
        omega
      · rw [if_neg hk, if_neg (Ne.symm hk)]
        omega

end Tally

end SurfaceFabric
