import SurfaceFabric.Proofs.Pool.Binding

/-!
The two phases of taking a factory, over whole histories. A desk keeps a pool and the tickets that were
handed out and not brought back. Every operation changes at most one slot, so the books stay in order if
they do at that slot: a symbol holds one factory at most, of its own template, and the reserved slots are
just those that a ticket is out for.
-/

namespace SurfaceFabric

theorem flatMap_set_perm {α β : Type} {f : α → List β} {l : List α} {i : Nat} {a b : α}
    {x : β} (ha : l[i]? = some a) (hx : (f a).Perm (x :: f b)) :
    (l.flatMap f).Perm (x :: (l.set i b).flatMap f) := by
  induction l generalizing i with
  | nil => cases ha
  | cons c l ih =>
      cases i with
      | zero =>
          cases ha
          rw [List.set_cons_zero, List.flatMap_cons, List.flatMap_cons]
          exact hx.append_right _
      | succ i =>
          rw [List.set_cons_succ, List.flatMap_cons, List.flatMap_cons]
          exact ((ih ha).append_left (f c)).trans List.perm_middle

theorem flatMap_set_eq {α β : Type} {f : α → List β} {l : List α} {i : Nat} {a b : α}
    (ha : l[i]? = some a) (hb : f b = f a) : (l.set i b).flatMap f = l.flatMap f := by
  induction l generalizing i with
  | nil => rfl
  | cons c l ih =>
      cases i with
      | zero =>
          cases ha
          simp [hb]
      | succ i => simp [ih ha]

namespace Layout

/-- Layouts as they come about: from a tiling, which may change later, by recording factories. -/
inductive Built : Layout → Prop
  | ofTiling (t : Tiling) (ioWidth : Nat) : Built (.ofTiling t ioWidth)
  | retile {l : Layout} (t : Tiling) (ioWidth : Nat) :
      Built l → Built { l with tiling := t, ioWidth := ioWidth }
  | addUnit {l : Layout} (template : Template) (segment : Nat) :
      Built l → Built (l.addUnit template segment)

theorem Built.handles_eq {l : Layout} (h : l.Built) :
    l.units.map FactoryUnit.handle = List.range l.units.length := by
  induction h with
  | ofTiling => rfl
  | retile _ _ _ ih => exact ih
  | addUnit _ _ _ ih => simp [Layout.addUnit, Layout.nextHandle, ih, List.range_succ]

end Layout

def PoolSlot.tickets (slot : PoolSlot) : List Ticket :=
  match slot.occupancy with
  | .reserved s => [⟨slot.handle, s⟩]
  | _ => []

theorem PoolSlot.mem_tickets {slot : PoolSlot} {k : Ticket} :
    k ∈ slot.tickets ↔ slot.handle = k.handle ∧ slot.occupancy = .reserved k.symbol := by
  obtain ⟨handle, s⟩ := k
  unfold tickets
  cases slot.occupancy with
  | free => simp
  | bound t => simp
  | reserved t =>
      simp only [List.mem_singleton, Ticket.mk.injEq, Occupancy.reserved.injEq]
      exact and_congr eq_comm eq_comm

namespace Pool

variable {p q : Pool} {i : Nat} {slot slot' : PoolSlot} {s : Symbol} {k : Ticket} {tickets tickets' : List Ticket}

theorem distinct_of_pairwise {l : Layout} (h : l.units.Pairwise fun a b => a.handle ≠ b.handle) :
    (ofLayout l).Distinct := by
  apply List.pairwise_map.2
  apply List.pairwise_filterMap.2
  refine h.imp ?_
  intro a b hne x hx y hy
  obtain ⟨_, -, rfl⟩ := Option.map_eq_some_iff.1 hx
  obtain ⟨_, -, rfl⟩ := Option.map_eq_some_iff.1 hy
  exact hne

theorem distinct_ofLayout {l : Layout} (h : l.Built) : (ofLayout l).Distinct := by
  apply distinct_of_pairwise
  apply List.pairwise_map.1
  rw [h.handles_eq]
  exact List.nodup_range

theorem free_ofLayout {l : Layout} (hslot : slot ∈ (ofLayout l).slots) : slot.occupancy = .free := by
  obtain ⟨u, -, hu⟩ := List.mem_filterMap.1 hslot
  obtain ⟨_, -, rfl⟩ := Option.map_eq_some_iff.1 hu
  rfl

theorem isHeld_eq_false_iff :
    p.isHeld s = false ↔ ∀ slot ∈ p.slots, slot.occupancy.heldBy s = false := by
  simp [isHeld]

/-- A slot that may be reserved for a symbol: it is free and of the template that the symbol names, and the
symbol holds no other. -/
structure Suits (p : Pool) (i : Nat) (slot : PoolSlot) (s : Symbol) : Prop where
  get : p.slots[i]? = some slot
  free : slot.occupancy = .free
  template : s.template? = some slot.template
  not_held : p.isHeld s = false

theorem suits_of_reserveBy {pick : String → List PoolSlot → Option (Nat × PoolSlot)}
    (hpick : ∀ template i slot, pick template p.slots = some (i, slot) →
      p.slots[i]? = some slot ∧ isOffered template slot = true)
    (h : p.reserveBy pick s = some (k, q)) :
    ∃ i slot, Suits p i slot s ∧ p.reserveSlot i slot s = (k, q) := by
  obtain ⟨template, htemplate, h⟩ := Option.bind_eq_some_iff.1 h
  split at h
  · cases h
  · next hheld =>
      obtain ⟨⟨i, slot⟩, hslot, heq⟩ := Option.map_eq_some_iff.1 h
      obtain ⟨hget, hoffered⟩ := hpick template i slot hslot
      refine ⟨i, slot, ⟨hget, free_of_isOffered hoffered, ?_, by simpa using hheld⟩, heq⟩
      rw [htemplate]
      simp only [isOffered, Bool.and_eq_true, beq_iff_eq] at hoffered
      rw [hoffered.1]

theorem suits_of_reserve? (h : p.reserve? s = some (k, q)) :
    ∃ i slot, Suits p i slot s ∧ p.reserveSlot i slot s = (k, q) := by
  rw [reserve?_eq] at h
  refine suits_of_reserveBy ?_ h
  intro template i slot hslot
  obtain ⟨-, hget, hoffered⟩ := preferred?_eq_some hslot
  exact ⟨hget, hoffered⟩

theorem suits_of_reserveHandle? {handle : Nat} (h : p.reserveHandle? s handle = some (k, q)) :
    ∃ i slot, Suits p i slot s ∧ p.reserveSlot i slot s = (k, q) := by
  rw [reserveHandle?_eq] at h
  refine suits_of_reserveBy ?_ h
  intro template i slot hslot
  obtain ⟨j, hj, hslot⟩ := Option.bind_eq_some_iff.1 hslot
  obtain ⟨found, hget, heq⟩ := Option.map_eq_some_iff.1 hslot
  cases heq
  obtain ⟨hlt, htest, -⟩ := List.findIdx?_eq_some_iff_getElem.1 hj
  rw [(List.getElem?_eq_some_iff.1 hget).2, Bool.and_eq_true] at htest
  exact ⟨hget, htest.2⟩

structure Orderly (p : Pool) : Prop where
  distinct : p.Distinct
  sole : ∀ a ∈ p.slots, ∀ b ∈ p.slots, ∀ s,
    a.occupancy.heldBy s = true → b.occupancy.heldBy s = true → a = b

theorem Orderly.of_free (hdistinct : p.Distinct) (hfree : ∀ slot ∈ p.slots, slot.occupancy = .free) :
    Orderly p := by
  refine ⟨hdistinct, ?_⟩
  intro a ha b _ s hheld
  simp [hfree a ha, Occupancy.heldBy] at hheld

/-- Changing the holder of one slot. The new one held it before, or holds no other. -/
theorem Orderly.set (h : Orderly p) (hi : p.slots[i]? = some slot) (hhandle : slot'.handle = slot.handle)
    (hholder : ∀ s, slot'.occupancy.heldBy s = true → slot.occupancy.heldBy s = true ∨ p.isHeld s = false) :
    Orderly ⟨p.slots.set i slot'⟩ := by
  have hmem : slot ∈ p.slots := List.mem_of_getElem? hi
  obtain ⟨hlt, hget⟩ := List.getElem?_eq_some_iff.1 hi
  have hnew : slot' ∈ p.slots.set i slot' := List.mem_set hlt slot'
  have hdistinct : Distinct ⟨p.slots.set i slot'⟩ := by
    show ((p.slots.set i slot').map PoolSlot.handle).Nodup
    rw [List.map_set, hhandle, ← hget, ← List.getElem_map PoolSlot.handle, List.set_getElem_self]
    · exact h.distinct
    · simpa using hlt
  -- another slot cannot be held by the new holder as well
  have hother (a : PoolSlot) (ha : a ∈ p.slots.set i slot') (hold : a ∈ p.slots) (s : Symbol)
      (hs : a.occupancy.heldBy s = true) (hs' : slot'.occupancy.heldBy s = true) : a = slot' := by
    obtain hheld | hnone := hholder s hs'
    · apply List.inj_on_of_nodup_map hdistinct ha hnew
      rw [h.sole a hold slot hmem s hs hheld, hhandle]
    · rw [isHeld_eq_false_iff.1 hnone a hold] at hs
      cases hs
  refine ⟨hdistinct, ?_⟩
  intro a ha b hb s hsa hsb
  obtain holda | rfl := List.mem_or_eq_of_mem_set ha
  · obtain holdb | rfl := List.mem_or_eq_of_mem_set hb
    · exact h.sole a holda b holdb s hsa hsb
    · exact hother a ha holda s hsa hsb
  · obtain holdb | rfl := List.mem_or_eq_of_mem_set hb
    · exact (hother b hb holdb s hsb hsa).symm
    · rfl

/-- Books in order: no handle is given twice, a symbol holds one factory at most, a factory is held by symbols
of its template only, and the tickets that are out are those of the reserved slots. -/
structure Kept (p : Pool) (tickets : List Ticket) : Prop where
  distinct : p.Distinct
  sole : ∀ a ∈ p.slots, ∀ b ∈ p.slots, ∀ s,
    a.occupancy.heldBy s = true → b.occupancy.heldBy s = true → a = b
  template : ∀ a ∈ p.slots, ∀ s, a.occupancy.heldBy s = true → s.template? = some a.template
  reserved : tickets.Perm (p.slots.flatMap PoolSlot.tickets)

namespace Kept

theorem orderly (h : Kept p tickets) : Orderly p := ⟨h.distinct, h.sole⟩

theorem of_free (hdistinct : p.Distinct) (hfree : ∀ slot ∈ p.slots, slot.occupancy = .free) :
    Kept p [] := by
  refine ⟨hdistinct, (Orderly.of_free hdistinct hfree).sole, ?_, ?_⟩
  · intro a ha s hheld
    simp [hfree a ha, Occupancy.heldBy] at hheld
  · have hnone : p.slots.flatMap PoolSlot.tickets = [] := by
      apply List.flatMap_eq_nil_iff.2
      intro slot hslot
      simp [PoolSlot.tickets, hfree slot hslot]
    rw [hnone]

theorem set (h : Kept p tickets) (hi : p.slots[i]? = some slot) (hhandle : slot'.handle = slot.handle)
    (hholder : ∀ s, slot'.occupancy.heldBy s = true → s.template? = some slot'.template ∧
      (slot.occupancy.heldBy s = true ∨ p.isHeld s = false))
    (htickets : tickets'.Perm ((p.slots.set i slot').flatMap PoolSlot.tickets)) :
    Kept ⟨p.slots.set i slot'⟩ tickets' := by
  obtain ⟨hdistinct, hsole⟩ := h.orderly.set hi hhandle fun s hs => (hholder s hs).2
  refine ⟨hdistinct, hsole, ?_, htickets⟩
  intro a ha s hs
  obtain hold | rfl := List.mem_or_eq_of_mem_set ha
  · exact h.template a hold s hs
  · exact (hholder s hs).1

theorem reserve (h : Kept p tickets) (hsuits : Suits p i slot s) (hreserve : p.reserveSlot i slot s = (k, q)) :
    Kept q (tickets ++ [k]) := by
  obtain ⟨rfl, rfl⟩ := Prod.mk.inj hreserve
  refine h.set hsuits.get rfl ?_ ?_
  · intro u hu
    obtain rfl : s = u := by simpa [Occupancy.heldBy] using hu
    exact ⟨hsuits.template, .inr hsuits.not_held⟩
  · obtain ⟨hlt, hget⟩ := List.getElem?_eq_some_iff.1 hsuits.get
    -- taking the reservation back gives the slots as they were
    have hperm := flatMap_set_perm (f := PoolSlot.tickets) (a := { slot with occupancy := .reserved s })
      (b := slot) (x := ⟨slot.handle, s⟩) (l := p.slots.set i { slot with occupancy := .reserved s })
      (i := i) (by simp [hlt]) (.of_eq (by simp [PoolSlot.tickets, hsuits.free]))
    rw [List.set_set, ← hget, List.set_getElem_self] at hperm
    rw [hget] at hperm
    exact (List.perm_append_singleton _ _).trans ((h.reserved.cons _).trans hperm.symm)

/-- The slot that a ticket was given for. -/
theorem exists_reserved (h : Kept p tickets) (hk : k ∈ tickets) :
    ∃ (i : Nat) (slot : PoolSlot), p.slots[i]? = some slot ∧ slot.handle = k.handle ∧
      slot.occupancy = .reserved k.symbol := by
  obtain ⟨slot, hslot, hmem⟩ := List.mem_flatMap.1 (h.reserved.mem_iff.1 hk)
  obtain ⟨i, hi⟩ := List.mem_iff_getElem?.1 hslot
  exact ⟨i, slot, hi, PoolSlot.mem_tickets.1 hmem⟩

theorem erase_perm (h : Kept p tickets) (hi : p.slots[i]? = some slot) (hk : slot.tickets = [k])
    (hnone : slot'.tickets = []) :
    (tickets.erase k).Perm ((p.slots.set i slot').flatMap PoolSlot.tickets) := by
  have hperm := flatMap_set_perm (f := PoolSlot.tickets) (b := slot') (x := k) hi (.of_eq (by rw [hk, hnone]))
  have hout : k ∈ tickets := by
    apply h.reserved.mem_iff.2
    exact hperm.mem_iff.2 List.mem_cons_self
  exact (((List.perm_cons_erase hout).symm.trans h.reserved).trans hperm).cons_inv

/-- What becomes of a slot when its ticket is brought back. -/
theorem commit_eq (h : Kept p tickets) (hi : p.slots[i]? = some slot) (hhandle : slot.handle = k.handle) :
    p.commit k = ⟨p.slots.set i { slot with occupancy := .bound k.symbol }⟩ := by
  rw [Pool.commit, ← hhandle, update_eq_set h.distinct hi]

theorem release_eq (h : Kept p tickets) (hi : p.slots[i]? = some slot) (hhandle : slot.handle = k.handle)
    (hreserved : slot.occupancy = .reserved k.symbol) :
    p.release k = ⟨p.slots.set i { slot with occupancy := .free }⟩ := by
  rw [Pool.release, ← hhandle, update_eq_set h.distinct hi, if_pos hreserved]

theorem commit (h : Kept p tickets) (hk : k ∈ tickets) : Kept (p.commit k) (tickets.erase k) := by
  obtain ⟨i, slot, hi, hhandle, hreserved⟩ := h.exists_reserved hk
  rw [h.commit_eq hi hhandle]
  refine h.set hi rfl ?_ (h.erase_perm hi ?_ rfl)
  · intro u hu
    obtain rfl : k.symbol = u := by simpa [Occupancy.heldBy] using hu
    have hheld : slot.occupancy.heldBy k.symbol = true := by simp [hreserved, Occupancy.heldBy]
    exact ⟨h.template slot (List.mem_of_getElem? hi) _ hheld, .inl hheld⟩
  · simp [PoolSlot.tickets, hreserved, hhandle]

theorem release (h : Kept p tickets) (hk : k ∈ tickets) : Kept (p.release k) (tickets.erase k) := by
  obtain ⟨i, slot, hi, hhandle, hreserved⟩ := h.exists_reserved hk
  rw [h.release_eq hi hhandle hreserved]
  refine h.set hi rfl ?_ (h.erase_perm hi ?_ rfl)
  · intro u hu
    simp [Occupancy.heldBy] at hu
  · simp [PoolSlot.tickets, hreserved, hhandle]

theorem commitAll (h : Kept p tickets) : Kept (p.commitAll tickets) [] := by
  induction tickets generalizing p with
  | nil => exact h
  | cons k rest ih =>
      have hnext := h.commit List.mem_cons_self
      rw [List.erase_cons_head] at hnext
      exact ih (p := p.commit k) hnext

theorem eq_of_holds {e e' : Cell} (h : Kept p tickets) (hs : p.Holds s e) (hs' : p.Holds s e') : e = e' := by
  obtain ⟨a, ha, hbound, rfl⟩ := hs
  obtain ⟨b, hb, hbound', rfl⟩ := hs'
  rw [h.sole a ha b hb s (by simp [hbound, Occupancy.heldBy]) (by simp [hbound', Occupancy.heldBy])]

theorem site_of_holds {e : Cell} (h : Kept p tickets) (hs : p.Holds s e) :
    ∃ template, s.template? = some template ∧ (template, e) ∈ p.sites := by
  obtain ⟨slot, hslot, hbound, rfl⟩ := hs
  refine ⟨slot.template, h.template slot hslot s (by simp [hbound, Occupancy.heldBy]), ?_⟩
  exact List.mem_map.2 ⟨slot, hslot, rfl⟩

theorem isFactory_of_holds {e : Cell} (h : Kept p tickets) (hs : p.Holds s e) : s.isFactory = true := by
  obtain ⟨template, htemplate, -⟩ := h.site_of_holds hs
  exact Symbol.isFactory_of_template? htemplate

end Kept

/-- Giving a factory back touches the slot that is bound to the symbol, and none if there is no such slot. -/
theorem free_cases (p : Pool) (s : Symbol) (tick : Nat) :
    (∀ slot ∈ p.slots, slot.occupancy ≠ .bound s) ∧ p.free s tick = p ∨
      ∃ i slot, p.slots[i]? = some slot ∧ slot.occupancy = .bound s ∧
        p.free s tick = ⟨p.slots.set i { slot with occupancy := .free, idleSince := tick }⟩ := by
  obtain ⟨hnone, heq⟩ | ⟨i, slot, hi, hslot, heq⟩ := updateFirst_cases
    (fun slot => slot.occupancy == .bound s)
    (fun slot => { slot with occupancy := .free, idleSince := tick }) p.slots
  · exact .inl ⟨fun slot hslot => by simpa using hnone slot hslot, congrArg Pool.mk heq⟩
  · exact .inr ⟨i, slot, hi, by simpa using hslot, congrArg Pool.mk heq⟩

theorem sites_free (p : Pool) (s : Symbol) (tick : Nat) : (p.free s tick).sites = p.sites := by
  apply map_updateFirst
  exact fun _ => rfl

/-- Only the symbol that gives its factory back loses one. -/
theorem Kept.bound_free (h : Kept p tickets) {u : Symbol} {tick : Nat} (P : PoolSlot → Prop) :
    (∃ slot ∈ (p.free u tick).slots, slot.occupancy = .bound s ∧ P slot) ↔
      (∃ slot ∈ p.slots, slot.occupancy = .bound s ∧ P slot) ∧ s ≠ u := by
  constructor
  · rintro ⟨b, hb, hbound, hP⟩
    obtain ⟨hnone, heq⟩ | ⟨i, slot, hi, hslot, heq⟩ := free_cases p u tick
    · rw [heq] at hb
      refine ⟨⟨b, hb, hbound, hP⟩, ?_⟩
      rintro rfl
      exact hnone b hb hbound
    · rw [heq] at hb
      obtain ⟨j, hj⟩ := List.mem_iff_getElem?.1 hb
      obtain ⟨-, rfl⟩ | ⟨hne, hj⟩ := getElem?_set_cases hj
      · cases hbound
      refine ⟨⟨b, List.mem_of_getElem? hj, hbound, hP⟩, ?_⟩
      rintro rfl
      -- the only slot bound to the symbol is the one that was given back
      apply hne
      apply h.distinct.position_eq hj hi
      rw [h.sole b (List.mem_of_getElem? hj) slot (List.mem_of_getElem? hi) s
        (by simp [hbound, Occupancy.heldBy]) (by simp [hslot, Occupancy.heldBy])]
  · rintro ⟨⟨slot, hslot, hbound, hP⟩, hne⟩
    exact ⟨slot, mem_updateFirst hslot (by simp [hbound, hne]), hbound, hP⟩

theorem Kept.holds_free (h : Kept p tickets) {u : Symbol} {e : Cell} {tick : Nat} :
    (p.free u tick).Holds s e ↔ p.Holds s e ∧ s ≠ u :=
  h.bound_free fun slot => slot.entrance = e

theorem Kept.free (h : Kept p tickets) (s : Symbol) (tick : Nat) : Kept (p.free s tick) tickets := by
  obtain ⟨-, heq⟩ | ⟨i, slot, hi, hbound, heq⟩ := free_cases p s tick
  · rw [heq]
    exact h
  · rw [heq]
    refine h.set hi rfl ?_ ?_
    · intro u hu
      simp [Occupancy.heldBy] at hu
    · rw [flatMap_set_eq hi]
      · exact h.reserved
      · simp [PoolSlot.tickets, hbound]

end Pool

structure Desk where
  pool : Pool
  tickets : List Ticket
  deriving DecidableEq, Repr

namespace Desk

inductive Action
  | reserve (s : Symbol)
  | reserveHandle (s : Symbol) (handle : Nat)
  | commit (k : Ticket)
  | release (k : Ticket)
  | free (s : Symbol) (tick : Nat)
  deriving DecidableEq, Repr

def handOut (d : Desk) : Option (Ticket × Pool) → Desk
  | none => d
  | some (k, p) => ⟨p, d.tickets ++ [k]⟩

/-- One operation. A ticket can be brought back as long as it is out, and is used up by that. -/
def perform (d : Desk) : Action → Option Desk
  | .reserve s => some (d.handOut (d.pool.reserve? s))
  | .reserveHandle s handle => some (d.handOut (d.pool.reserveHandle? s handle))
  | .commit k => if k ∈ d.tickets then some ⟨d.pool.commit k, d.tickets.erase k⟩ else none
  | .release k => if k ∈ d.tickets then some ⟨d.pool.release k, d.tickets.erase k⟩ else none
  | .free s tick => some ⟨d.pool.free s tick, d.tickets⟩

def performAll (d : Desk) (actions : List Action) : Option Desk := actions.foldlM perform d

/-- A desk whose tickets stand for the reserved slots one by one, and what bringing one back or giving a
factory back does to it. -/
structure InOrder (d : Desk) : Prop where
  sole : ∀ (i j : Nat) (a b : PoolSlot) (s : Symbol), d.pool.slots[i]? = some a →
    d.pool.slots[j]? = some b → a.occupancy.heldBy s = true → b.occupancy.heldBy s = true → i = j
  template : ∀ slot ∈ d.pool.slots, ∀ s, slot.occupancy.heldBy s = true →
    s.template? = some slot.template
  reserved : d.tickets.Perm (d.pool.slots.flatMap PoolSlot.tickets)
  nodup : d.tickets.Nodup
  ticket : ∀ k ∈ d.tickets, ∃ (i : Nat) (slot : PoolSlot), d.pool.slots[i]? = some slot ∧
    slot.handle = k.handle ∧ slot.occupancy = .reserved k.symbol ∧
    (d.pool.commit k).slots = d.pool.slots.set i { slot with occupancy := .bound k.symbol } ∧
    (d.pool.release k).slots = d.pool.slots.set i { slot with occupancy := .free }
  free : ∀ s tick,
    (∀ slot ∈ d.pool.slots, slot.occupancy ≠ .bound s) ∧ d.pool.free s tick = d.pool ∨
      ∃ (i : Nat) (slot : PoolSlot), d.pool.slots[i]? = some slot ∧ slot.occupancy = .bound s ∧
        (d.pool.free s tick).slots =
          d.pool.slots.set i { slot with occupancy := .free, idleSince := tick }

theorem nodup_tickets {p : Pool} (h : p.Distinct) : (p.slots.flatMap PoolSlot.tickets).Nodup := by
  apply List.nodup_flatMap.2
  refine ⟨fun slot _ => ?_, (List.pairwise_map.1 h).imp ?_⟩
  · unfold PoolSlot.tickets
    split <;> simp
  · intro a b hne k ha hb
    apply hne
    rw [(PoolSlot.mem_tickets.1 ha).1, (PoolSlot.mem_tickets.1 hb).1]

theorem inOrder_of_kept {d : Desk} (h : d.pool.Kept d.tickets) : d.InOrder where
  sole i j a b s hi hj ha hb := by
    apply h.distinct.position_eq hi hj
    rw [h.sole a (List.mem_of_getElem? hi) b (List.mem_of_getElem? hj) s ha hb]
  template := h.template
  reserved := h.reserved
  nodup := h.reserved.nodup_iff.2 (nodup_tickets h.distinct)
  ticket k hk := by
    obtain ⟨i, slot, hi, hhandle, hreserved⟩ := h.exists_reserved hk
    refine ⟨i, slot, hi, hhandle, hreserved, ?_, ?_⟩
    · rw [h.commit_eq hi hhandle]
    · rw [h.release_eq hi hhandle hreserved]
  free s tick := by
    refine (Pool.free_cases d.pool s tick).imp_right ?_
    rintro ⟨i, slot, hi, hbound, heq⟩
    exact ⟨i, slot, hi, hbound, by rw [heq]⟩

theorem kept_handOut {d : Desk} {given : Option (Ticket × Pool)} {s : Symbol} (h : d.pool.Kept d.tickets)
    (hgiven : ∀ k p, given = some (k, p) →
      ∃ i slot, d.pool.Suits i slot s ∧ d.pool.reserveSlot i slot s = (k, p)) :
    (d.handOut given).pool.Kept (d.handOut given).tickets := by
  cases given with
  | none => exact h
  | some x =>
      obtain ⟨i, slot, hsuits, heq⟩ := hgiven x.1 x.2 rfl
      exact h.reserve hsuits heq

theorem kept_perform {d d' : Desk} {action : Action} (h : d.pool.Kept d.tickets)
    (hperform : d.perform action = some d') : d'.pool.Kept d'.tickets := by
  cases action with
  | reserve s =>
      obtain rfl := Option.some.inj hperform
      exact kept_handOut h fun _ _ => Pool.suits_of_reserve?
  | reserveHandle s handle =>
      obtain rfl := Option.some.inj hperform
      exact kept_handOut h fun _ _ => Pool.suits_of_reserveHandle?
  | commit k =>
      obtain ⟨hk, hperform⟩ := Option.ite_none_right_eq_some.1 hperform
      obtain rfl := Option.some.inj hperform
      exact h.commit hk
  | release k =>
      obtain ⟨hk, hperform⟩ := Option.ite_none_right_eq_some.1 hperform
      obtain rfl := Option.some.inj hperform
      exact h.release hk
  | free s tick =>
      obtain rfl := Option.some.inj hperform
      exact h.free s tick

theorem kept_performAll {actions : List Action} {d d' : Desk} (h : d.pool.Kept d.tickets)
    (hperform : d.performAll actions = some d') : d'.pool.Kept d'.tickets := by
  induction actions generalizing d with
  | nil =>
      obtain rfl := Option.some.inj hperform
      exact h
  | cons action rest ih =>
      rw [performAll, List.foldlM_cons] at hperform
      obtain ⟨next, hnext, hrest⟩ := Option.bind_eq_some_iff.1 hperform
      exact ih (kept_perform h hnext) hrest

end Desk

/-- The books of a layout's factories stay in order, whatever is asked of them, as long as no ticket is
brought back twice. -/
theorem performAll_inOrder {l : Layout} {actions : List Desk.Action} {d : Desk} (hl : l.Built)
    (hperform : Desk.performAll ⟨Pool.ofLayout l, []⟩ actions = some d) : d.InOrder := by
  apply Desk.inOrder_of_kept
  refine Desk.kept_performAll ?_ hperform
  exact Pool.Kept.of_free (Pool.distinct_ofLayout hl) fun _ => Pool.free_ofLayout

namespace TwoCounters

def layout : Layout :=
  .addUnit (.addUnit (.addUnit (.ofTiling ⟨2, 3, [.isolated 0 (.taken (.factory 0) ⟨0, 0, 1, 1⟩),
    .isolated 1 (.taken (.factory 1) ⟨0, 1, 1, 2⟩), .isolated 2 (.taken (.factory 2) ⟨0, 2, 1, 3⟩),
    .isolated 3 (.taken .route ⟨1, 0, 2, 3⟩)], 4⟩ 0) ⟨"T", 1, 1, 4⟩ 0) ⟨"T", 1, 1, 4⟩ 1) ⟨"M", 1, 1, 2⟩ 2

/-- Two reservations at once; the first is bound and given back while the second is still pending. -/
def actions : List Desk.Action :=
  [.reserve (.factory "T" 0), .reserveHandle (.factory "T" 1) 1, .reserve (.factory "T" 2),
    .commit ⟨0, .factory "T" 0⟩, .reserve (.factory "M" 0), .free (.factory "T" 0) 7,
    .release ⟨1, .factory "T" 1⟩, .reserve (.factory "T" 1), .reserveHandle (.factory "T" 3) 0,
    .commit ⟨0, .factory "T" 3⟩]

def desk : Desk :=
  ⟨⟨[⟨0, "T", ⟨0, 0⟩, 4, 7, .bound (.factory "T" 3)⟩, ⟨1, "T", ⟨0, 1⟩, 4, 0, .reserved (.factory "T" 1)⟩,
    ⟨2, "M", ⟨0, 2⟩, 2, 0, .reserved (.factory "M" 0)⟩]⟩, [⟨2, .factory "M" 0⟩, ⟨1, .factory "T" 1⟩]⟩

theorem built_layout : layout.Built :=
  .addUnit _ _ (.addUnit _ _ (.addUnit _ _ (.ofTiling _ _)))

end TwoCounters

theorem twoCounters_inOrder : TwoCounters.layout.Built ∧
    Desk.performAll ⟨Pool.ofLayout TwoCounters.layout, []⟩ TwoCounters.actions = some TwoCounters.desk ∧
    TwoCounters.desk.InOrder := by
  have hperform : Desk.performAll ⟨Pool.ofLayout TwoCounters.layout, []⟩ TwoCounters.actions =
      some TwoCounters.desk := by
    decide +kernel
  exact ⟨TwoCounters.built_layout, hperform, performAll_inOrder TwoCounters.built_layout hperform⟩

end SurfaceFabric
