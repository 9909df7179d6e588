import SurfaceFabric.Proofs.Routing.Tenure

/-!
Where the operands of an admitted gate are. The gate finds a cell for each of them first, for an unbound
factory the entrance of the one that is reserved for it. Once its reservations are committed the operands are
just there if no two of them share a cell, also where a handle stands for several factories.
-/

namespace SurfaceFabric

theorem find?_set_map {α β : Type} {t : α → Bool} {v : α → β} {l : List α} {i : Nat} {a b : α}
    (ha : l[i]? = some a) (ht : t b = t a) (hv : v b = v a) :
    ((l.set i b).find? t).map v = (l.find? t).map v := by
  induction l generalizing i with
  | nil => cases ha
  | cons first rest ih =>
      cases i with
      | zero =>
          obtain rfl : first = a := by simpa using ha
          rw [List.set_cons_zero, List.find?_cons, List.find?_cons, ht]
          split
          · exact congrArg some hv
          · rfl
      | succ i =>
          rw [List.set_cons_succ, List.find?_cons, List.find?_cons]
          split
          · rfl
          · exact ih (by simpa using ha)

theorem find?_set_of_not {α : Type} {t : α → Bool} {l : List α} {i : Nat} {a b : α}
    (ha : l[i]? = some a) (hta : t a = false) (htb : t b = false) : (l.set i b).find? t = l.find? t := by
  induction l generalizing i with
  | nil => cases ha
  | cons first rest ih =>
      cases i with
      | zero =>
          obtain rfl : first = a := by simpa using ha
          rw [List.set_cons_zero, List.find?_cons, List.find?_cons, hta, htb]
      | succ i => rw [List.set_cons_succ, List.find?_cons, List.find?_cons, ih (by simpa using ha)]

namespace Pool

variable {p q : Pool} {s : Symbol} {slot : PoolSlot} {k : Ticket} {tickets : List Ticket} {c : Cell}

theorem entrance?_commit (p : Pool) (k : Ticket) (handle : Nat) :
    (p.commit k).entrance? handle = p.entrance? handle := by
  obtain ⟨-, heq⟩ | ⟨i, slot, hi, -, heq⟩ := updateFirst_cases (fun slot => slot.handle == k.handle)
    (fun slot => { slot with occupancy := .bound k.symbol }) p.slots
  · exact congrArg (fun slots => entrance? ⟨slots⟩ handle) heq
  · refine (congrArg (fun slots => entrance? ⟨slots⟩ handle) heq).trans ?_
    exact find?_set_map hi rfl rfl

/-- A symbol stays bound where it is if another symbol is bound to another slot. -/
theorem binding?_commit (hs : k.symbol ≠ s) (h : p.binding? s = some slot)
    (hslot : p.slot? k.handle ≠ some slot) : (p.commit k).binding? s = some slot := by
  obtain ⟨slots⟩ := p
  change slots.find? _ = some slot at h
  change slots.find? _ ≠ some slot at hslot
  show (updateFirst _ _ slots).find? _ = some slot
  induction slots with
  | nil => cases h
  | cons first rest ih =>
      rw [List.find?_cons] at h hslot
      rw [updateFirst]
      by_cases hk : first.handle = k.handle
      · rw [if_pos (by simpa using hk), List.find?_cons]
        simp only [hk, beq_self_eq_true] at hslot
        have hother : (Occupancy.bound k.symbol == .bound s) = false := by simpa using hs
        split at h
        · exact absurd h hslot
        · rw [hother]
          exact h
      · rw [if_neg (by simpa using hk), List.find?_cons]
        simp only [beq_eq_false_iff_ne.2 hk] at hslot
        split at h
        · exact h
        · exact ih h hslot

theorem binding?_commit_eq_none (hs : k.symbol ≠ s) (h : p.binding? s = none) :
    (p.commit k).binding? s = none := by
  have hnone : ∀ slot ∈ p.slots, slot.occupancy ≠ .bound s := by
    simpa [binding?] using h
  obtain ⟨-, heq⟩ | ⟨i, slot, -, -, heq⟩ := updateFirst_cases (fun slot => slot.handle == k.handle)
    (fun slot => { slot with occupancy := .bound k.symbol }) p.slots
  · exact (congrArg (fun slots => binding? ⟨slots⟩ s) heq).trans h
  · refine (congrArg (fun slots => binding? ⟨slots⟩ s) heq).trans ?_
    simp only [binding?, List.find?_eq_none, beq_iff_eq]
    intro other hother
    rcases List.mem_or_eq_of_mem_set hother with hother | rfl
    · exact hnone other hother
    · simpa using hs

theorem binding?_commit_self (h : p.binding? k.symbol = none) (hc : p.entrance? k.handle = some c) :
    ((p.commit k).binding? k.symbol).map PoolSlot.entrance = some c := by
  obtain ⟨slots⟩ := p
  change slots.find? _ = none at h
  change (slots.find? _).map _ = some c at hc
  show ((updateFirst _ _ slots).find? _).map _ = some c
  induction slots with
  | nil => cases hc
  | cons first rest ih =>
      rw [List.find?_cons] at h hc
      rw [updateFirst]
      split at h
      · cases h
      · next hbound =>
          by_cases hk : first.handle = k.handle
          · simpa [hk] using hc
          · rw [if_neg (by simpa using hk), List.find?_cons, hbound]
            simp only [beq_eq_false_iff_ne.2 hk] at hc
            exact ih h hc

theorem binding?_commitAll (h : p.binding? s = some slot) (hsymbol : ∀ k ∈ tickets, k.symbol ≠ s)
    (hentrance : ∀ k ∈ tickets, p.entrance? k.handle ≠ some slot.entrance) :
    (p.commitAll tickets).binding? s = some slot := by
  induction tickets generalizing p with
  | nil => exact h
  | cons k tickets ih =>
      refine ih (binding?_commit (hsymbol k (by simp)) h ?_) (fun k' hk' => hsymbol k' (by simp [hk'])) ?_
      · intro hslot
        exact hentrance k (by simp) (congrArg (Option.map PoolSlot.entrance) hslot)
      · intro k' hk'
        rw [entrance?_commit]
        exact hentrance k' (by simp [hk'])

end Pool

namespace Mapping

variable {m m' : Mapping} {isReset : Bool} {operands : List Symbol} {cells : List Cell}
  {tickets : List Ticket} {s : Symbol}

structure SameSeats (m m' : Mapping) : Prop where
  cells_eq : m'.cells = m.cells
  binding_eq : ∀ s, m'.pool.binding? s = m.pool.binding? s
  entrance_eq : ∀ handle, m'.pool.entrance? handle = m.pool.entrance? handle

theorem SameSeats.refl (m : Mapping) : SameSeats m m := ⟨rfl, fun _ => rfl, fun _ => rfl⟩

theorem SameSeats.coordinate?_eq (h : SameSeats m m') (s : Symbol) :
    m'.coordinate? s = m.coordinate? s := by
  rw [coordinate?, coordinate?, h.binding_eq, cell?, cell?, h.cells_eq]

theorem SameSeats.reserve (h : SameSeats m m') {q : Pool} {i : Nat} {slot : PoolSlot} {k : Ticket}
    (hsuits : m'.pool.Suits i slot s) (hq : m'.pool.reserveSlot i slot s = (k, q)) :
    SameSeats m { m' with pool := q } := by
  obtain ⟨-, rfl⟩ := Prod.mk.inj hq
  refine ⟨h.cells_eq, fun u => ?_, fun handle => ?_⟩
  · rw [← h.binding_eq u]
    exact find?_set_of_not hsuits.get (by simp [hsuits.free]) (by simp)
  · rw [← h.entrance_eq handle]
    exact find?_set_map hsuits.get rfl rfl

/-- Where a gate finds its operands, and the tickets of what it reserves: an operand is mapped or bound, or it
is an unbound factory. Such a factory has no cell if the gate is a reset, and else that of the entrance of the
factory that is reserved. -/
inductive Seated (m : Mapping) (isReset : Bool) : List Symbol → List Cell → List Ticket → Prop
  | nil : Seated m isReset [] [] []
  | seated {s : Symbol} {c : Cell} {rest : List Symbol} {cells : List Cell} {tickets : List Ticket}
      (hs : m.coordinate? s = some c) (h : Seated m isReset rest cells tickets) :
      Seated m isReset (s :: rest) (c :: cells) tickets
  | unbound {s : Symbol} {rest : List Symbol} {cells : List Cell} {tickets : List Ticket}
      (hs : m.coordinate? s = none) (hreset : isReset = true) (h : Seated m isReset rest cells tickets) :
      Seated m isReset (s :: rest) cells tickets
  | reserved {k : Ticket} {c : Cell} {rest : List Symbol} {cells : List Cell} {tickets : List Ticket}
      (hs : m.coordinate? k.symbol = none) (hfactory : k.symbol.isFactory = true)
      (hreset : isReset = false) (hc : m.pool.entrance? k.handle = some c) (hnew : k.symbol ∉ rest)
      (h : Seated m isReset rest cells tickets) :
      Seated m isReset (k.symbol :: rest) (c :: cells) (k :: tickets)

namespace Seated

theorem ticket (h : Seated m isReset operands cells tickets) :
    ∀ k ∈ tickets, k.symbol ∈ operands ∧ m.coordinate? k.symbol = none ∧ isReset = false ∧
      ∃ c ∈ cells, m.pool.entrance? k.handle = some c := by
  induction h with
  | nil => simp
  | seated _ _ ih | unbound _ _ _ ih =>
      intro k hk
      obtain ⟨hmem, hnone, hreset, c, hc, hentrance⟩ := ih k hk
      exact ⟨by simp [hmem], hnone, hreset, c, by simp [hc], hentrance⟩
  | reserved hs hfactory hreset hc hnew _ ih =>
      intro k hk
      rcases List.mem_cons.1 hk with rfl | hk
      · exact ⟨by simp, hs, hreset, _, by simp, hc⟩
      · obtain ⟨hmem, hnone, hreset, c, hc, hentrance⟩ := ih k hk
        exact ⟨by simp [hmem], hnone, hreset, c, by simp [hc], hentrance⟩

theorem mem_cells (h : Seated m isReset operands cells tickets) {c : Cell} (hmem : s ∈ operands)
    (hs : m.coordinate? s = some c) : c ∈ cells := by
  induction h with
  | nil => cases hmem
  | seated hs' _ ih =>
      rcases List.mem_cons.1 hmem with rfl | hmem
      · rw [hs] at hs'
        cases hs'
        exact List.mem_cons_self
      · exact List.mem_cons_of_mem _ (ih hmem)
  | unbound hs' _ _ ih =>
      rcases List.mem_cons.1 hmem with rfl | hmem
      · rw [hs] at hs'
        cases hs'
      · exact ih hmem
  | reserved hs' _ _ _ _ _ ih =>
      rcases List.mem_cons.1 hmem with rfl | hmem
      · rw [hs] at hs'
        cases hs'
      · exact List.mem_cons_of_mem _ (ih hmem)

end Seated

/-- A pool with the entrances of a mapping's, in which factory symbols among `operands` are bound where the mapping
has them. -/
structure Shows (m : Mapping) (operands : List Symbol) (p : Pool) : Prop where
  entrance_eq : ∀ handle, p.entrance? handle = m.pool.entrance? handle
  binding_eq : ∀ s ∈ operands, s.isFactory = true → p.binding? s = m.pool.binding? s

namespace Shows

variable {rest : List Symbol} {p : Pool} {c : Cell} {k : Ticket}

theorem tail (h : m.Shows (s :: rest) p) : m.Shows rest p :=
  ⟨h.entrance_eq, fun u hu => h.binding_eq u (List.mem_cons_of_mem _ hu)⟩

/-- A bound symbol keeps its slot while tickets for other cells are committed. -/
theorem binding?_commitAll (h : m.Shows operands p) (hseated : Seated m isReset rest cells tickets)
    {slot : PoolSlot} (hslot : p.binding? s = some slot) (hcell : slot.entrance ∉ cells)
    (hsymbol : ∀ k ∈ tickets, k.symbol ≠ s) : (p.commitAll tickets).binding? s = some slot := by
  refine Pool.binding?_commitAll hslot hsymbol fun k hk heq => ?_
  obtain ⟨-, -, -, c, hc, hk⟩ := hseated.ticket k hk
  rw [h.entrance_eq, hk] at heq
  cases heq
  exact hcell hc

/-- Committing a ticket for a cell of its own leaves the operands after it where they are. -/
theorem commit (h : m.Shows (k.symbol :: rest) p) (hseated : Seated m isReset rest cells tickets)
    (hnew : k.symbol ∉ rest) (hc : m.pool.entrance? k.handle = some c) (hcell : c ∉ cells) :
    m.Shows rest (p.commit k) := by
  refine ⟨fun handle => (Pool.entrance?_commit p k handle).trans (h.entrance_eq handle), fun u hu hfactory => ?_⟩
  have hne : k.symbol ≠ u := by
    rintro rfl
    exact hnew hu
  have hsame := h.tail.binding_eq u hu hfactory
  rw [← hsame]
  cases hslot : p.binding? u with
  | none => exact Pool.binding?_commit_eq_none hne hslot
  | some slot =>
      refine Pool.binding?_commit hne hslot fun heq => ?_
      have hseat : m.coordinate? u = some slot.entrance := by
        rw [coordinate?, if_pos hfactory, ← hsame, hslot]
        rfl
      have hsite := (h.entrance_eq k.handle).symm.trans (congrArg (Option.map PoolSlot.entrance) heq)
      rw [hc] at hsite
      cases hsite
      exact hcell (hseated.mem_cells hu hseat)

theorem coordinate?_seated (h : m.Shows (s :: rest) p) (hseated : Seated m isReset rest cells tickets)
    (hs : m.coordinate? s = some c) (hcell : c ∉ cells) :
    ({ m with pool := p.commitAll tickets } : Mapping).coordinate? s = some c := by
  by_cases hfactory : s.isFactory = true
  · rw [coordinate?, if_pos hfactory] at hs ⊢
    obtain ⟨slot, hslot, rfl⟩ := Option.map_eq_some_iff.1 hs
    have hslot' : p.binding? s = some slot := (h.binding_eq s List.mem_cons_self hfactory).trans hslot
    refine congrArg (Option.map PoolSlot.entrance) (h.binding?_commitAll hseated hslot' hcell fun k hk => ?_)
    rintro rfl
    have hnone := (hseated.ticket k hk).2.1
    rw [coordinate?, if_pos hfactory, hslot] at hnone
    cases hnone
  · rw [coordinate?, if_neg hfactory] at hs ⊢
    exact hs

theorem coordinate?_unbound (h : m.Shows (s :: rest) p) (hs : m.coordinate? s = none) :
    ({ m with pool := p } : Mapping).coordinate? s = none := by
  rw [← hs, coordinate?, coordinate?]
  by_cases hfactory : s.isFactory = true
  · rw [if_pos hfactory, if_pos hfactory]
    exact congrArg (Option.map PoolSlot.entrance) (h.binding_eq s List.mem_cons_self hfactory)
  · rw [if_neg hfactory, if_neg hfactory]
    rfl

theorem coordinate?_reserved (h : m.Shows (k.symbol :: rest) p) (hseated : Seated m isReset rest cells tickets)
    (hs : m.coordinate? k.symbol = none) (hfactory : k.symbol.isFactory = true) (hnew : k.symbol ∉ rest)
    (hc : m.pool.entrance? k.handle = some c) (hcell : c ∉ cells) :
    ({ m with pool := p.commitAll (k :: tickets) } : Mapping).coordinate? k.symbol = some c := by
  have hnone : p.binding? k.symbol = none := by
    rw [coordinate?, if_pos hfactory, Option.map_eq_none_iff] at hs
    exact (h.binding_eq _ List.mem_cons_self hfactory).trans hs
  have hself := Pool.binding?_commit_self hnone ((h.entrance_eq k.handle).trans hc)
  obtain ⟨slot, hslot, rfl⟩ := Option.map_eq_some_iff.1 hself
  rw [coordinate?, if_pos hfactory]
  refine congrArg (Option.map PoolSlot.entrance)
    ((h.commit hseated hnew hc hcell).binding?_commitAll hseated hslot hcell fun k' hk' heq => ?_)
  exact hnew (heq ▸ (hseated.ticket k' hk').1)

end Shows

/-- No two tickets are for one cell, and none is for the cell of an operand that was bound before. -/
theorem Seated.coordinates_eq (h : Seated m isReset operands cells tickets) (hnodup : cells.Nodup) {p : Pool}
    (hshows : m.Shows operands p) :
    operands.filterMap ({ m with pool := p.commitAll tickets } : Mapping).coordinate? = cells := by
  induction h generalizing p with
  | nil => rfl
  | seated hs h ih =>
      obtain ⟨hcell, hrest⟩ := List.nodup_cons.1 hnodup
      rw [List.filterMap_cons, ih hrest hshows.tail, hshows.coordinate?_seated h hs hcell]
  | @unbound _ _ _ tickets hs hreset h ih =>
      have htail := ih hnodup hshows.tail
      obtain rfl : tickets = [] := by
        refine List.eq_nil_iff_forall_not_mem.2 fun k hk => ?_
        rw [(h.ticket k hk).2.2.1] at hreset
        cases hreset
      rw [List.filterMap_cons, htail, show p.commitAll [] = p from rfl, hshows.coordinate?_unbound hs]
  | reserved hs hfactory _ hc hnew h ih =>
      obtain ⟨hcell, hrest⟩ := List.nodup_cons.1 hnodup
      have htail := ih hrest (hshows.commit h hnew hc hcell)
      rw [List.filterMap_cons, hshows.coordinate?_reserved h hs hfactory hnew hc hcell]
      exact congrArg (_ :: ·) htail

end Mapping

namespace RoutingJob

variable {job : RoutingJob} {n : Nat} {isReset : Bool} {operands : List Symbol} {cells cells' : List Cell}
  {tickets tickets' : List Ticket} {m m₀ m' : Mapping}

section Lookup

variable {s : Symbol} {rest : List Symbol} {c : Cell} {k : Ticket} {q : Pool}

theorem resolve_seated (hs : m.coordinate? s = some c) :
    job.resolve n isReset (s :: rest) cells tickets m =
      job.resolve n isReset rest (cells ++ [c]) tickets m := by
  rw [resolve, hs]

theorem resolve_unmapped (hs : m.coordinate? s = none) (hfactory : s.isFactory = false) :
    job.resolve n isReset (s :: rest) cells tickets m = (.unmapped s, tickets, m) := by
  rw [resolve, hs]
  simp [hfactory]

theorem resolve_unbound (hs : m.coordinate? s = none) (hfactory : s.isFactory = true) :
    job.resolve n true (s :: rest) cells tickets m = job.resolve n true rest cells tickets m := by
  rw [resolve, hs]
  simp [hfactory]

theorem resolve_lacking (hs : m.coordinate? s = none) (hfactory : s.isFactory = true)
    (hreserve : job.reserve? m.pool n s = none) :
    job.resolve n false (s :: rest) cells tickets m = (.lacking, tickets, m) := by
  rw [resolve, hs]
  simp [hfactory, hreserve]

/-- The slot of a ticket has an entrance, though with repeated handles it may be that of another slot. -/
theorem resolve_reserved (hs : m.coordinate? s = none) (hfactory : s.isFactory = true)
    (hreserve : job.reserve? m.pool n s = some (k, q)) (rest : List Symbol) (cells : List Cell)
    (tickets : List Ticket) :
    ∃ c, q.entrance? k.handle = some c ∧ job.resolve n false (s :: rest) cells tickets m =
      job.resolve n false rest (cells ++ [c]) (tickets ++ [k]) { m with pool := q } := by
  obtain ⟨i, slot, hsuits, hq⟩ := suits_of_reserve? hreserve
  obtain ⟨rfl, rfl⟩ := Prod.mk.inj hq
  have hfound : ∃ c, Pool.entrance? ⟨m.pool.slots.set i { slot with occupancy := .reserved s }⟩
      slot.handle = some c := by
    rw [← Option.isSome_iff_exists, Pool.entrance?, Option.isSome_map, Pool.slot?, List.find?_isSome]
    have hlt : i < m.pool.slots.length := (List.getElem?_eq_some_iff.1 hsuits.get).1
    exact ⟨_, List.mem_set hlt _, by simp⟩
  obtain ⟨c, hc⟩ := hfound
  refine ⟨c, hc, ?_⟩
  rw [resolve, hs]
  simp [hfactory, hreserve, hc]

end Lookup

theorem isHeld_of_reserve? {p q : Pool} {s : Symbol} {k : Ticket}
    (h : job.reserve? p n s = some (k, q)) : q.isHeld s = true ∧ p.isHeld s = false ∧
      ∀ u, p.isHeld u = true → q.isHeld u = true := by
  obtain ⟨i, slot, hsuits, hq⟩ := suits_of_reserve? h
  obtain ⟨-, rfl⟩ := Prod.mk.inj hq
  have hlt : i < p.slots.length := (List.getElem?_eq_some_iff.1 hsuits.get).1
  refine ⟨?_, hsuits.not_held, fun u hu => ?_⟩
  · refine List.any_eq_true.2 ⟨_, List.mem_set hlt _, ?_⟩
    simp [Occupancy.heldBy]
  · obtain ⟨other, hother, hheld⟩ := List.any_eq_true.1 hu
    obtain ⟨j, hj⟩ := List.mem_iff_getElem?.1 hother
    have hij : i ≠ j := by
      rintro rfl
      rw [hsuits.get] at hj
      cases hj
      simp [hsuits.free, Occupancy.heldBy] at hheld
    refine List.any_eq_true.2 ⟨other, List.mem_of_getElem? (i := j) ?_, hheld⟩
    rw [List.getElem?_set_ne hij, hj]

/-- A symbol for which a factory is reserved is not found again. -/
theorem not_mem_of_isHeld {s : Symbol} (hheld : m.pool.isHeld s = true) (hs : m.coordinate? s = none)
    (h : job.resolve n false operands cells tickets m = (.found cells', tickets', m')) : s ∉ operands := by
  induction operands generalizing cells tickets m with
  | nil => simp
  | cons u rest ih =>
      cases hu : m.coordinate? u with
      | some c =>
          rw [resolve_seated hu] at h
          have hne : s ≠ u := by
            rintro rfl
            rw [hs] at hu
            cases hu
          simpa [hne] using ih hheld hs h
      | none =>
          by_cases hufactory : u.isFactory = true
          · cases hreserve : job.reserve? m.pool n u with
            | none =>
                rw [resolve_lacking hu hufactory hreserve] at h
                cases h
            | some reserved =>
                obtain ⟨k, q⟩ := reserved
                obtain ⟨c, -, heq⟩ := resolve_reserved hu hufactory hreserve rest cells tickets
                obtain ⟨i, slot, hsuits, hq⟩ := suits_of_reserve? hreserve
                obtain ⟨-, hfree, hmono⟩ := isHeld_of_reserve? hreserve
                have hne : s ≠ u := by
                  rintro rfl
                  rw [hheld] at hfree
                  cases hfree
                have hs' : ({ m with pool := q } : Mapping).coordinate? s = none :=
                  ((Mapping.SameSeats.refl m).reserve hsuits hq |>.coordinate?_eq s).trans hs
                rw [heq] at h
                simpa [hne] using ih (m := { m with pool := q }) (hmono s hheld) hs' h
          · rw [resolve_unmapped hu (by simpa using hufactory)] at h
            cases h

theorem seated_of_resolve (hsame : m₀.SameSeats m)
    (h : job.resolve n isReset operands cells tickets m = (.found cells', tickets', m')) :
    ∃ found new, cells' = cells ++ found ∧ tickets' = tickets ++ new ∧ m₀.SameSeats m' ∧
      m₀.Seated isReset operands found new := by
  induction operands generalizing cells tickets m with
  | nil =>
      obtain ⟨rfl, rfl, rfl⟩ := by simpa [resolve] using h
      exact ⟨[], [], (List.append_nil _).symm, (List.append_nil _).symm, hsame, .nil⟩
  | cons s rest ih =>
      cases hs : m.coordinate? s with
      | some c =>
          rw [resolve_seated hs] at h
          obtain ⟨found, new, rfl, rfl, hsame', hseated⟩ := ih hsame h
          refine ⟨c :: found, new, List.append_assoc .., rfl, hsame', .seated ?_ hseated⟩
          exact (hsame.coordinate?_eq s).symm.trans hs
      | none =>
          have hs₀ : m₀.coordinate? s = none := (hsame.coordinate?_eq s).symm.trans hs
          by_cases hfactory : s.isFactory = true
          · cases isReset with
            | true =>
                rw [resolve_unbound hs hfactory] at h
                obtain ⟨found, new, hcells, htickets, hsame', hseated⟩ := ih hsame h
                exact ⟨found, new, hcells, htickets, hsame', .unbound hs₀ rfl hseated⟩
            | false =>
                cases hreserve : job.reserve? m.pool n s with
                | none =>
                    rw [resolve_lacking hs hfactory hreserve] at h
                    cases h
                | some reserved =>
                    obtain ⟨k, q⟩ := reserved
                    obtain ⟨c, hc, heq⟩ := resolve_reserved hs hfactory hreserve rest cells tickets
                    obtain ⟨i, slot, hsuits, hq⟩ := suits_of_reserve? hreserve
                    have hsame₁ := hsame.reserve hsuits hq
                    obtain rfl : k.symbol = s := symbol_of_reserve? hreserve
                    rw [heq] at h
                    obtain ⟨found, new, rfl, rfl, hsame', hseated⟩ := ih hsame₁ h
                    refine ⟨c :: found, k :: new, List.append_assoc .., List.append_assoc .., hsame', ?_⟩
                    have hnew : k.symbol ∉ rest :=
                      not_mem_of_isHeld (m := { m with pool := q }) (isHeld_of_reserve? hreserve).1
                        ((hsame₁.coordinate?_eq _).trans hs₀) h
                    exact .reserved hs₀ hfactory rfl ((hsame₁.entrance_eq _).symm.trans hc) hnew hseated
          · rw [resolve_unmapped hs (by simpa using hfactory)] at h
            cases h

/-- Once a gate is admitted its operands are at the cells that were found for them, if these are all
different. -/
theorem Admission.coordinates_eq {f : Fabric} {t : Nat} (a : Admission job f n t) (h : a.cells.Nodup) :
    a.gate.operands.filterMap a.fabric.mapping.coordinate? = a.cells := by
  obtain ⟨found, new, hcells, htickets, hsame, hseated⟩ :=
    seated_of_resolve (Mapping.SameSeats.refl f.mapping) a.resolve_eq
  rw [List.nil_append] at hcells htickets
  subst hcells htickets
  have hmapping : a.fabric.mapping = { a.mapping with pool := a.mapping.pool.commitAll a.tickets } := rfl
  have hcoordinates := hseated.coordinates_eq h ⟨hsame.entrance_eq, fun s _ _ => hsame.binding_eq s⟩
  rw [hmapping]
  refine Eq.trans (List.filterMap_congr fun s _ => ?_) hcoordinates
  rw [Mapping.coordinate?, Mapping.coordinate?, Mapping.cell?, Mapping.cell?, hsame.cells_eq]

end RoutingJob

end SurfaceFabric
