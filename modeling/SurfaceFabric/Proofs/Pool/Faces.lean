import Mathlib.Data.List.Perm.Basic
import SurfaceFabric.Proofs.Pool.Protocol

/-!
Pools that differ in the order, the handles and the entrances of their factories. A symbol is given a factory
for its price and for how long it has been idle, so it is given factories of one face in both pools, and
taking them or giving them back leaves the pools alike. Where two factories share a face the pools may well
give different ones.
-/

namespace SurfaceFabric

/-- What a slot is apart from where it is. -/
def PoolSlot.face (slot : PoolSlot) : String × Nat × Nat × Occupancy :=
  (slot.template, slot.cycles, slot.idleSince, slot.occupancy)

theorem PoolSlot.face_eq_iff {a b : PoolSlot} : a.face = b.face ↔
    a.template = b.template ∧ a.cycles = b.cycles ∧ a.idleSince = b.idleSince ∧ a.occupancy = b.occupancy := by
  simp [face]

/-- Replacing equal members of permuted lists by equal ones. -/
theorem perm_set {α : Type} {l m : List α} {i j : Nat} {a : α} (h : l.Perm m) (hi : l[i]? = some a)
    (hj : m[j]? = some a) (b : α) : (l.set i b).Perm (m.set j b) := by
  obtain ⟨hlt, rfl⟩ := List.getElem?_eq_some_iff.1 hi
  obtain ⟨hlt', heq⟩ := List.getElem?_eq_some_iff.1 hj
  have hrest : (l.eraseIdx i).Perm (m.eraseIdx j) := by
    apply List.Perm.cons_inv (a := l[i])
    refine (List.getElem_cons_eraseIdx_perm hlt).trans (h.trans ?_)
    rw [← heq]
    exact (List.getElem_cons_eraseIdx_perm hlt').symm
  calc (l.set i b).Perm (b :: l.eraseIdx i) := List.set_perm_cons_eraseIdx hlt b
    _ |>.Perm (b :: m.eraseIdx j) := hrest.cons b
    _ |>.Perm (m.set j b) := (List.set_perm_cons_eraseIdx hlt' b).symm

namespace Pool

variable {p q p' : Pool} {i j : Nat} {a b a' b' slot : PoolSlot} {s : Symbol} {k : Ticket}

structure Alike (p q : Pool) : Prop where
  left : p.Orderly
  right : q.Orderly
  faces : (p.slots.map PoolSlot.face).Perm (q.slots.map PoolSlot.face)

/-- What a request chooses: a slot that suits it, such that no free factory of the template is cheaper, or as
cheap and idle for longer. -/
structure Chooses (p : Pool) (s : Symbol) (i : Nat) (slot : PoolSlot) : Prop where
  suits : p.Suits i slot s
  best : ∀ other ∈ p.slots, isOffered slot.template other = true → preferable other slot = false

/-- Taking a factory binds the slot that is chosen and changes nothing else. -/
theorem chooses_of_reserve? (h : p.Distinct) (hr : p.reserve? s = some (k, p')) :
    ∃ i slot, p.Chooses s i slot ∧ k.handle = slot.handle ∧
      p'.commit k = ⟨p.slots.set i { slot with occupancy := .bound s }⟩ ∧
      (p'.commit k).idleSince? k.handle = some slot.idleSince := by
  rw [reserve?_eq] at hr
  obtain ⟨template, htemplate, hr⟩ := Option.bind_eq_some_iff.1 hr
  split at hr
  · cases hr
  · next hheld =>
      obtain ⟨⟨i, slot⟩, hpick, heq⟩ := Option.map_eq_some_iff.1 hr
      obtain ⟨-, hget, hoffered⟩ := preferred?_eq_some hpick
      have hfree : slot.occupancy = .free := free_of_isOffered hoffered
      obtain rfl : slot.template = template := by simpa using (Bool.and_eq_true_iff.1 hoffered).1
      obtain ⟨hlt, -⟩ := List.getElem?_eq_some_iff.1 hget
      have hdistinct : p'.Distinct := (reserves_of_reserveSlot h hget hfree heq).distinct h
      have hbound : (p'.commit k).Distinct := hdistinct.update fun _ => rfl
      obtain ⟨rfl, rfl⟩ := Prod.mk.inj heq
      have hcommit : Pool.commit ⟨p.slots.set i { slot with occupancy := .reserved s }⟩ ⟨slot.handle, s⟩ =
          ⟨p.slots.set i { slot with occupancy := .bound s }⟩ := by
        refine (update_eq_set hdistinct (i := i) (List.getElem?_set_self hlt) _).trans ?_
        rw [List.set_set]
      refine ⟨i, slot, ⟨⟨hget, hfree, htemplate, by simpa using hheld⟩, preferred?_best hpick⟩, rfl, hcommit, ?_⟩
      change Pool.Distinct (Pool.commit ⟨p.slots.set i { slot with occupancy := .reserved s }⟩ ⟨slot.handle, s⟩)
        at hbound
      rw [hcommit] at hbound
      rw [hcommit, idleSince?]
      exact congrArg (Option.map PoolSlot.idleSince) (hbound.slot?_eq (List.mem_set hlt _))

theorem reserve?_eq_none_iff : p.reserve? s = none ↔ ∀ template, s.template? = some template →
    p.isHeld s = true ∨ ∀ slot ∈ p.slots, isOffered template slot = false := by
  rw [reserve?_eq, reserveBy, Option.bind_eq_none_iff]
  refine forall₂_congr fun template _ => ?_
  split
  · next hheld => simp [hheld]
  · next hheld => simp [hheld, preferred?_eq_none_iff]

namespace Alike

theorem symm (h : Alike p q) : Alike q p := ⟨h.right, h.left, h.faces.symm⟩

theorem exists_face (h : Alike p q) (ha : a ∈ p.slots) : ∃ b ∈ q.slots, b.face = a.face :=
  List.mem_map.1 (h.faces.mem_iff.1 (List.mem_map_of_mem ha))

theorem isHeld_eq (h : Alike p q) (s : Symbol) : p.isHeld s = q.isHeld s := by
  have hany := h.faces.any_eq (f := fun face => face.2.2.2.heldBy s)
  rwa [List.any_map, List.any_map] at hany

theorem exists_bound (h : Alike p q) (hp : ∃ slot ∈ p.slots, slot.occupancy = .bound s) :
    ∃ slot ∈ q.slots, slot.occupancy = .bound s := by
  obtain ⟨a, ha, hbound⟩ := hp
  obtain ⟨b, hb, hface⟩ := h.exists_face ha
  exact ⟨b, hb, (PoolSlot.face_eq_iff.1 hface).2.2.2.trans hbound⟩

theorem binding?_isSome_eq (h : Alike p q) (s : Symbol) : (p.binding? s).isSome = (q.binding? s).isSome := by
  rw [Bool.eq_iff_iff, binding?_isSome_iff, binding?_isSome_iff]
  exact ⟨h.exists_bound, h.symm.exists_bound⟩

/-- Changing two slots of one face in the same way. -/
theorem set (h : Alike p q) (hi : p.slots[i]? = some a) (hj : q.slots[j]? = some b) (hface : a.face = b.face)
    (ha : a'.handle = a.handle) (hb : b'.handle = b.handle) (hface' : a'.face = b'.face)
    (hholder : ∀ s, a'.occupancy.heldBy s = true → a.occupancy.heldBy s = true ∨ p.isHeld s = false) :
    Alike ⟨p.slots.set i a'⟩ ⟨q.slots.set j b'⟩ := by
  refine ⟨h.left.set hi ha hholder, h.right.set hj hb ?_, ?_⟩
  · rw [← (PoolSlot.face_eq_iff.1 hface).2.2.2, ← (PoolSlot.face_eq_iff.1 hface').2.2.2]
    intro s hs
    rw [← h.isHeld_eq]
    exact hholder s hs
  · show ((p.slots.set i a').map PoolSlot.face).Perm ((q.slots.set j b').map PoolSlot.face)
    rw [List.map_set, List.map_set, ← hface']
    refine perm_set h.faces (a := a.face) ?_ ?_ _
    · rw [List.getElem?_map, hi, Option.map_some]
    · rw [List.getElem?_map, hj, Option.map_some, hface]

/-- The other pool has a slot with the face of what is chosen here, and did not prefer it. -/
theorem not_preferable (h : Alike p q) (ha : p.Chooses s i a) (hb : q.Chooses s j b) :
    ¬(a.cycles < b.cycles ∨ a.cycles = b.cycles ∧ a.idleSince < b.idleSince) := by
  obtain ⟨b', hb', hface⟩ := h.exists_face (List.mem_of_getElem? ha.suits.get)
  obtain ⟨htemplate, hcycles, hidle, hoccupancy⟩ := PoolSlot.face_eq_iff.1 hface
  have hkind : b.template = a.template :=
    Option.some.inj (hb.suits.template.symm.trans ha.suits.template)
  have hoffered : isOffered b.template b' = true := by
    simp [isOffered, htemplate, hoccupancy, hkind, ha.suits.free]
  have hnot := hb.best b' hb' hoffered
  rwa [← Bool.not_eq_true, preferable_iff, hcycles, hidle] at hnot

/-- What is chosen in one pool has the face of what is chosen in the other. -/
theorem face_eq (h : Alike p q) (ha : p.Chooses s i a) (hb : q.Chooses s j b) : a.face = b.face := by
  have hab := h.not_preferable ha hb
  have hba := h.symm.not_preferable hb ha
  refine PoolSlot.face_eq_iff.2 ⟨?_, by omega, by omega, ha.suits.free.trans hb.suits.free.symm⟩
  exact Option.some.inj (ha.suits.template.symm.trans hb.suits.template)

theorem reserve?_eq_none (h : Alike p q) (hp : p.reserve? s = none) : q.reserve? s = none := by
  rw [reserve?_eq_none_iff] at hp ⊢
  intro template htemplate
  rw [← h.isHeld_eq]
  refine (hp template htemplate).imp_right fun hnone b hb => ?_
  obtain ⟨a, ha, hface⟩ := h.symm.exists_face hb
  obtain ⟨heq, -, -, hoccupancy⟩ := PoolSlot.face_eq_iff.1 hface
  have hskip := hnone a ha
  rwa [isOffered, heq, hoccupancy] at hskip

/-- A request is met in both pools or in neither, and by factories that have been idle for as long. -/
theorem take (h : Alike p q) (s : Symbol) :
    p.reserve? s = none ∧ q.reserve? s = none ∨
      ∃ k k' p' q', p.reserve? s = some (k, p') ∧ q.reserve? s = some (k', q') ∧
        Alike (p'.commit k) (q'.commit k') ∧
        (p'.commit k).idleSince? k.handle = (q'.commit k').idleSince? k'.handle := by
  cases hp : p.reserve? s with
  | none => exact .inl ⟨rfl, h.reserve?_eq_none hp⟩
  | some taken =>
      obtain ⟨k, p'⟩ := taken
      cases hq : q.reserve? s with
      | none =>
          rw [h.symm.reserve?_eq_none hq] at hp
          cases hp
      | some taken' =>
          obtain ⟨k', q'⟩ := taken'
          obtain ⟨i, a, ha, -, heq, hidle⟩ := chooses_of_reserve? h.left.distinct hp
          obtain ⟨j, b, hb, -, heq', hidle'⟩ := chooses_of_reserve? h.right.distinct hq
          have hface := h.face_eq ha hb
          obtain ⟨htemplate, hcycles, hsince, -⟩ := PoolSlot.face_eq_iff.1 hface
          refine .inr ⟨k, k', p', q', rfl, rfl, ?_, ?_⟩
          · rw [heq, heq']
            refine h.set ha.suits.get hb.suits.get hface rfl rfl ?_ ?_
            · exact PoolSlot.face_eq_iff.2 ⟨htemplate, hcycles, hsince, rfl⟩
            · intro u hu
              obtain rfl : s = u := by simpa [Occupancy.heldBy] using hu
              exact .inr ha.suits.not_held
          · rw [hidle, hidle', hsince]

theorem free (h : Alike p q) (s : Symbol) (tick : Nat) : Alike (p.free s tick) (q.free s tick) := by
  obtain ⟨hnone, heq⟩ | ⟨i, a, hi, ha, heq⟩ := free_cases p s tick
  · obtain ⟨-, heq'⟩ | ⟨j, b, hj, hb, -⟩ := free_cases q s tick
    · rwa [heq, heq']
    · obtain ⟨a, ha, hbound⟩ := h.symm.exists_bound ⟨b, List.mem_of_getElem? hj, hb⟩
      exact absurd hbound (hnone a ha)
  · obtain ⟨hnone, -⟩ | ⟨j, b, hj, hb, heq'⟩ := free_cases q s tick
    · obtain ⟨b, hb, hbound⟩ := h.exists_bound ⟨a, List.mem_of_getElem? hi, ha⟩
      exact absurd hbound (hnone b hb)
    · -- a symbol holds one factory, so the bound slots correspond
      obtain ⟨b', hb', hface⟩ := h.exists_face (List.mem_of_getElem? hi)
      obtain rfl : b' = b := by
        refine h.right.sole b' hb' b (List.mem_of_getElem? hj) s ?_ ?_
        · simp [(PoolSlot.face_eq_iff.1 hface).2.2.2, ha, Occupancy.heldBy]
        · simp [hb, Occupancy.heldBy]
      obtain ⟨htemplate, hcycles, -, -⟩ := PoolSlot.face_eq_iff.1 hface
      rw [heq, heq']
      refine h.set hi hj hface.symm rfl rfl ?_ ?_
      · exact PoolSlot.face_eq_iff.2 ⟨htemplate.symm, hcycles.symm, rfl, rfl⟩
      · intro u hu
        simp [Occupancy.heldBy] at hu

end Alike

end Pool

end SurfaceFabric
