import Mathlib.Data.List.Nodup
import SurfaceFabric.Pool

/-!
Reservations as changes that can be taken back. Where factories have different handles a ticket names one
of them, so its release undoes its reservation, whatever was reserved before or after it.
-/

namespace SurfaceFabric

/-- Only the first member that passes a test changes. -/
theorem updateFirst_first {α : Type} (t : α → Bool) (g : α → α) (l : List α) :
    (∀ a ∈ l, t a = false) ∧ updateFirst t g l = l ∨ ∃ i a, l[i]? = some a ∧ t a = true ∧
      (∀ j b, j < i → l[j]? = some b → t b = false) ∧ updateFirst t g l = l.set i (g a) := by
  induction l with
  | nil => exact .inl ⟨by simp, rfl⟩
  | cons a rest ih =>
      cases ha : t a with
      | true => exact .inr ⟨0, a, rfl, ha, by simp, by simp [updateFirst, ha]⟩
      | false =>
          obtain ⟨hnone, heq⟩ | ⟨i, b, hi, hb, hfirst, heq⟩ := ih
          · refine .inl ⟨?_, by simp [updateFirst, ha, heq]⟩
            simpa [ha] using hnone
          · refine .inr ⟨i + 1, b, hi, hb, fun j c hj hc => ?_, by simp [updateFirst, ha, heq]⟩
            cases j with
            | zero =>
                obtain rfl : a = c := by simpa using hc
                exact ha
            | succ j => exact hfirst j c (by omega) (by simpa using hc)

theorem updateFirst_cases {α : Type} (t : α → Bool) (g : α → α) (l : List α) :
    (∀ a ∈ l, t a = false) ∧ updateFirst t g l = l ∨
      ∃ i a, l[i]? = some a ∧ t a = true ∧ updateFirst t g l = l.set i (g a) := by
  refine (updateFirst_first t g l).imp_right ?_
  rintro ⟨i, a, hi, ha, -, heq⟩
  exact ⟨i, a, hi, ha, heq⟩

theorem getElem?_set_cases {α : Type} {l : List α} {i j : Nat} {a b : α} (h : (l.set i b)[j]? = some a) :
    j = i ∧ a = b ∨ j ≠ i ∧ l[j]? = some a := by
  rw [List.getElem?_set] at h
  split at h
  · next hij =>
      split at h
      · exact .inl ⟨hij.symm, (Option.some.inj h).symm⟩
      · cases h
  · next hij => exact .inr ⟨Ne.symm hij, h⟩

namespace Pool

variable {p p₀ q : Pool} {s : Symbol} {ticket : Ticket} {tickets : List Ticket}

def Distinct (p : Pool) : Prop := (p.slots.map PoolSlot.handle).Nodup

instance : DecidablePred Distinct := fun p => inferInstanceAs (Decidable (p.slots.map PoolSlot.handle).Nodup)

theorem slots_update (h : p.Distinct) (handle : Nat) (g : PoolSlot → PoolSlot) :
    (p.update handle g).slots = p.slots.map fun slot => if slot.handle = handle then g slot else slot := by
  obtain ⟨slots⟩ := p
  show updateFirst _ g slots = _
  induction slots with
  | nil => rfl
  | cons slot rest ih =>
      obtain ⟨hnew, hrest⟩ := List.nodup_cons.1 (show (slot.handle :: rest.map PoolSlot.handle).Nodup from h)
      by_cases hslot : slot.handle = handle
      · -- no later factory has this handle
        have hkeep : ∀ other ∈ rest, (if other.handle = handle then g other else other) = other := by
          intro other hother
          apply if_neg
          rintro heq
          exact hnew (List.mem_map.2 ⟨other, hother, heq.trans hslot.symm⟩)
        simp [updateFirst, hslot, List.map_congr_left hkeep]
      · simp [updateFirst, hslot, ih hrest]

theorem Distinct.update (h : p.Distinct) {handle : Nat} {g : PoolSlot → PoolSlot}
    (hg : ∀ slot, (g slot).handle = slot.handle) : (p.update handle g).Distinct := by
  show List.Nodup _
  rw [slots_update h, List.map_map]
  refine (List.map_congr_left ?_ : _ = p.slots.map PoolSlot.handle) ▸ h
  intro slot _
  show (if slot.handle = handle then g slot else slot).handle = slot.handle
  split
  · exact hg slot
  · rfl

/-- Changes of two factories commute. -/
theorem update_comm (h : p.Distinct) {a b : Nat} (hne : a ≠ b) {f g : PoolSlot → PoolSlot}
    (hf : ∀ slot, (f slot).handle = slot.handle) (hg : ∀ slot, (g slot).handle = slot.handle) :
    (p.update a f).update b g = (p.update b g).update a f := by
  apply congrArg Pool.mk
  show ((p.update a f).update b g).slots = ((p.update b g).update a f).slots
  rw [slots_update (h.update hf), slots_update (h.update hg), slots_update h, slots_update h,
    List.map_map, List.map_map]
  apply List.map_congr_left
  intro slot _
  by_cases ha : slot.handle = a
  · have hb : slot.handle ≠ b := fun hb => hne (ha.symm.trans hb)
    simp [ha, hf, hne]
  · by_cases hb : slot.handle = b
    · simp [hb, hg, hne.symm]
    · simp [ha, hb]

theorem release_handle (ticket : Ticket) (slot : PoolSlot) :
    (if slot.occupancy = .reserved ticket.symbol then { slot with occupancy := .free }
      else slot).handle = slot.handle := by
  split <;> rfl

theorem Distinct.release (h : p.Distinct) (ticket : Ticket) : (p.release ticket).Distinct :=
  h.update (release_handle ticket)

theorem releaseAll_release (h : p.Distinct) (hne : ∀ k ∈ tickets, k.handle ≠ ticket.handle) :
    (p.releaseAll tickets).release ticket = (p.release ticket).releaseAll tickets := by
  induction tickets generalizing p with
  | nil => rfl
  | cons k rest ih =>
      show ((p.release k).releaseAll rest).release ticket = ((p.release ticket).release k).releaseAll rest
      have hcomm : (p.release k).release ticket = (p.release ticket).release k :=
        update_comm h (hne k (by simp)) (release_handle k) (release_handle ticket)
      rw [ih (h.release k) fun k' hk' => hne k' (by simp [hk']), hcomm]

/-- A pool that differs from another in one factory, which was free and is now reserved. -/
structure Reserves (p : Pool) (ticket : Ticket) (q : Pool) : Prop where
  free : ∃ slot ∈ p.slots, slot.handle = ticket.handle ∧ slot.occupancy = .free
  eq_update : q = p.update ticket.handle fun slot => { slot with occupancy := .reserved ticket.symbol }

theorem Reserves.distinct (hr : Reserves p ticket q) (h : p.Distinct) : q.Distinct := by
  rw [hr.eq_update]
  exact h.update fun _ => rfl

theorem Reserves.release_eq (hr : Reserves p ticket q) (h : p.Distinct) : q.release ticket = p := by
  obtain ⟨free, hfree, hhandle, hoccupancy⟩ := hr.free
  apply congrArg Pool.mk
  show (q.release ticket).slots = p.slots
  rw [Pool.release, slots_update (hr.distinct h), hr.eq_update, slots_update h, List.map_map]
  refine (List.map_congr_left ?_).trans (List.map_id _)
  intro slot hslot
  by_cases hsame : slot.handle = ticket.handle
  · -- the factory of the ticket is the one that was free
    have heq : slot = free := List.inj_on_of_nodup_map h hslot hfree (hsame.trans hhandle.symm)
    have hback : { slot with occupancy := .free } = slot := by rw [heq, ← hoccupancy]
    simpa [hsame] using hback
  · simp [hsame]

theorem Distinct.position_eq (h : p.Distinct) {i j : Nat} {slot slot' : PoolSlot}
    (hi : p.slots[i]? = some slot) (hj : p.slots[j]? = some slot') (hhandle : slot.handle = slot'.handle) : i = j := by
  obtain ⟨hlt, -⟩ := List.getElem?_eq_some_iff.1 hi
  apply (List.getElem?_inj (i := i) (j := j) (by simpa using hlt) h).1
  rw [List.getElem?_map, List.getElem?_map, hi, hj, Option.map_some, Option.map_some, hhandle]

/-- A change by handle is a change at one position. -/
theorem update_eq_set (h : p.Distinct) {i : Nat} {slot : PoolSlot} (hi : p.slots[i]? = some slot)
    (g : PoolSlot → PoolSlot) :
    p.update slot.handle g = ⟨p.slots.set i (g slot)⟩ := by
  obtain ⟨hnone, -⟩ | ⟨j, other, hj, hother, heq⟩ :=
    updateFirst_cases (fun slot' => slot'.handle == slot.handle) g p.slots
  · have hmiss := hnone slot (List.mem_of_getElem? hi)
    simp at hmiss
  · obtain rfl : j = i := h.position_eq hj hi (by simpa using hother)
    obtain rfl : other = slot := Option.some.inj (hj.symm.trans hi)
    exact congrArg Pool.mk heq

theorem reserves_of_reserveSlot (h : p.Distinct) {i : Nat} {slot : PoolSlot}
    (hi : p.slots[i]? = some slot) (hfree : slot.occupancy = .free)
    (heq : p.reserveSlot i slot s = (ticket, q)) : Reserves p ticket q := by
  obtain ⟨rfl, rfl⟩ := Prod.mk.inj heq
  refine ⟨⟨slot, List.mem_of_getElem? hi, rfl, hfree⟩, ?_⟩
  exact (update_eq_set h hi fun slot => { slot with occupancy := .reserved s }).symm

theorem preferred?_eq_some {test : PoolSlot → Bool} {i j : Nat} {slots : List PoolSlot} {slot : PoolSlot}
    (h : preferred? test i slots = some (j, slot)) :
    i ≤ j ∧ slots[j - i]? = some slot ∧ test slot = true := by
  induction slots generalizing i with
  | nil => cases h
  | cons first rest ih =>
      have hlater : preferred? test (i + 1) rest = some (j, slot) →
          i ≤ j ∧ (first :: rest)[j - i]? = some slot ∧ test slot = true := by
        intro hrest
        obtain ⟨hle, hget, htest⟩ := ih hrest
        refine ⟨by omega, ?_, htest⟩
        rw [show j - i = j - (i + 1) + 1 by omega, List.getElem?_cons_succ]
        exact hget
      have hfirst : test first = true → (i, first) = (j, slot) →
          i ≤ j ∧ (first :: rest)[j - i]? = some slot ∧ test slot = true := by
        rintro htest heq
        obtain ⟨rfl, rfl⟩ := Prod.mk.inj heq
        exact ⟨Nat.le_refl i, by simp, htest⟩
      rw [preferred?] at h
      split at h
      · exact hlater h
      · next htest _ => exact hfirst htest (Option.some.inj h)
      · next htest hrest =>
          split at h
          · exact hlater (hrest.trans h)
          · exact hfirst htest (Option.some.inj h)

theorem reserves_of_reserve? (h : p.Distinct) (hr : p.reserve? s = some (ticket, q)) :
    Reserves p ticket q := by
  simp only [reserve?, Option.bind_eq_bind, Option.bind_eq_some_iff] at hr
  obtain ⟨template, -, hr⟩ := hr
  split at hr
  · cases hr
  · obtain ⟨⟨i, slot⟩, hpreferred, hr⟩ := Option.bind_eq_some_iff.1 hr
    obtain ⟨-, hget, hoffered⟩ := preferred?_eq_some hpreferred
    have hfree : slot.occupancy = .free := by simp_all [isOffered]
    exact reserves_of_reserveSlot h hget hfree (Option.some.inj hr)

theorem reserves_of_reserveHandle? {handle : Nat} (h : p.Distinct)
    (hr : p.reserveHandle? s handle = some (ticket, q)) : Reserves p ticket q := by
  simp only [reserveHandle?, Option.bind_eq_bind, Option.bind_eq_some_iff] at hr
  obtain ⟨template, -, hr⟩ := hr
  split at hr
  · cases hr
  · simp only [Option.bind_eq_some_iff] at hr
    obtain ⟨i, hfind, slot, hget, hr⟩ := hr
    obtain ⟨hlt, htest, -⟩ := List.findIdx?_eq_some_iff_getElem.1 hfind
    have hslot : p.slots[i] = slot := (List.getElem?_eq_some_iff.1 hget).2
    have hfree : slot.occupancy = .free := by simp_all [isOffered]
    exact reserves_of_reserveSlot h hget hfree (Option.some.inj hr)

/-- Reservations made from a pool on, all of which are pending. -/
structure Pending (p₀ : Pool) (tickets : List Ticket) (p : Pool) : Prop where
  distinct : p.Distinct
  releaseAll_eq : p.releaseAll tickets = p₀
  reserved : ∀ k ∈ tickets, ∀ slot ∈ p.slots, slot.handle = k.handle → slot.occupancy = .reserved k.symbol

theorem Distinct.pending (h : p.Distinct) : Pending p [] p :=
  ⟨h, rfl, by simp⟩

/-- A free factory has no ticket. -/
theorem Pending.handle_ne (h : Pending p₀ tickets p) {slot : PoolSlot} (hslot : slot ∈ p.slots)
    (hoccupancy : ∀ s, slot.occupancy ≠ .reserved s) : ∀ k ∈ tickets, k.handle ≠ slot.handle :=
  fun k hk hsame => hoccupancy _ (h.reserved k hk slot hslot hsame.symm)

theorem Reserves.handle_ne (hr : Reserves p ticket q) (h : Pending p₀ tickets p) :
    ∀ k ∈ tickets, k.handle ≠ ticket.handle := by
  obtain ⟨slot, hslot, hhandle, hfree⟩ := hr.free
  rw [← hhandle]
  exact h.handle_ne hslot (by simp [hfree])

theorem Pending.reserve (h : Pending p₀ tickets p) (hr : Reserves p ticket q) :
    Pending p₀ (tickets ++ [ticket]) q := by
  have hne := hr.handle_ne h
  refine ⟨hr.distinct h.distinct, ?_, ?_⟩
  · calc q.releaseAll (tickets ++ [ticket])
        = (q.releaseAll tickets).release ticket := List.foldl_append
      _ = (q.release ticket).releaseAll tickets := releaseAll_release (hr.distinct h.distinct) hne
      _ = p.releaseAll tickets := by rw [hr.release_eq h.distinct]
      _ = p₀ := h.releaseAll_eq
  · intro k hk slot hslot hhandle
    rw [hr.eq_update, slots_update h.distinct] at hslot
    obtain ⟨old, hold, rfl⟩ := List.mem_map.1 hslot
    rcases List.mem_append.1 hk with hk | hk
    · have hother : old.handle ≠ ticket.handle := by
        intro hsame
        rw [if_pos hsame] at hhandle
        exact hne k hk (hhandle.symm.trans hsame)
      rw [if_neg hother] at hhandle ⊢
      exact h.reserved k hk old hold hhandle
    · rw [List.mem_singleton.1 hk] at hhandle ⊢
      by_cases hsame : old.handle = ticket.handle
      · rw [if_pos hsame]
      · rw [if_neg hsame] at hhandle
        exact absurd hhandle hsame

end Pool

end SurfaceFabric
