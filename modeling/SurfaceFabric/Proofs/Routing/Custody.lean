import SurfaceFabric.Proofs.Circuit.Sharing
import SurfaceFabric.Proofs.Pool.Binding
import SurfaceFabric.Proofs.Routing.Order
import SurfaceFabric.Proofs.Routing.Refusal

/-!
Who holds which factory in a run. An admitted gate binds factories that were free, each to one of its own
operands, and a factory stays bound until a reset of its symbol ends. Gates on a common symbol run one
after the other, so a gate finds bound what the gate before it left bound.
-/

namespace SurfaceFabric

namespace RoutingJob

variable {job : RoutingJob} {pace : Pace} {slacks : List Nat}
  {n : Nat} {isReset : Bool} {operands : List Symbol} {cells cells' : List Cell} {tickets tickets' : List Ticket}
  {m m' : Mapping} {p₀ : Pool}

theorem reserve?_eq (job : RoutingJob) (pool : Pool) (n : Nat) (s : Symbol) :
    job.reserve? pool n s =
      ((job.schedule.binding? n).bind fun handle => pool.reserveBy (Pool.offered? handle) s).or
        (pool.reserveBy (fun template => Pool.preferred? (Pool.isOffered template) 0) s) := by
  rw [reserve?, Pool.reserve?_eq]
  congr
  funext handle
  exact Pool.reserveHandle?_eq pool s handle

theorem symbol_of_reserve? {pool q : Pool} {s : Symbol} {ticket : Ticket}
    (h : job.reserve? pool n s = some (ticket, q)) : ticket.symbol = s := by
  rw [reserve?_eq] at h
  rcases Option.or_eq_some_iff.1 h with h | ⟨-, h⟩
  · obtain ⟨handle, -, h⟩ := Option.bind_eq_some_iff.1 h
    exact Pool.symbol_of_reserveBy h
  · exact Pool.symbol_of_reserveBy h

/-- How the first of some operands is found: it has a cell, or it is an unbound factory that is reset and
needs none, or a factory is reserved for it. -/
theorem resolve_cons_found {s : Symbol} {rest : List Symbol}
    (h : job.resolve n isReset (s :: rest) cells tickets m = (.found cells', tickets', m')) :
    (∃ c, m.coordinate? s = some c ∧
      job.resolve n isReset rest (cells ++ [c]) tickets m = (.found cells', tickets', m')) ∨
    (isReset = true ∧ job.resolve n isReset rest cells tickets m = (.found cells', tickets', m')) ∨
    ∃ ticket q c, job.reserve? m.pool n s = some (ticket, q) ∧ q.entrance? ticket.handle = some c ∧
      job.resolve n isReset rest (cells ++ [c]) (tickets ++ [ticket]) { m with pool := q } =
        (.found cells', tickets', m') := by
  rw [resolve] at h
  split at h
  · next c hc => exact .inl ⟨c, hc, h⟩
  split at h
  · cases h
  split at h
  · next hreset => exact .inr (.inl ⟨hreset, h⟩)
  split at h
  · cases h
  · next ticket q hreserve =>
      dsimp only at h
      split at h
      · next c hc => exact .inr (.inr ⟨ticket, q, c, hreserve, hc, h⟩)
      · cases h

/-- Cells that were found stay found. -/
theorem subset_of_resolve (h : job.resolve n isReset operands cells tickets m = (.found cells', tickets', m')) :
    ∀ c ∈ cells, c ∈ cells' := by
  induction operands generalizing cells tickets m with
  | nil =>
      obtain ⟨hcells, -, -⟩ := by simpa [resolve] using h
      exact hcells ▸ fun c hc => hc
  | cons s rest ih =>
      intro c hc
      obtain ⟨_, -, h⟩ | ⟨-, h⟩ | ⟨_, _, _, -, -, h⟩ := resolve_cons_found h
      · exact ih h c (List.mem_append_left _ hc)
      · exact ih h c hc
      · exact ih h c (List.mem_append_left _ hc)

/-- The factories bound for some operands were free, and their entrances are among the cells found. -/
theorem resolve_binds (h : Pool.Pending p₀ tickets m.pool)
    (hr : job.resolve n isReset operands cells tickets m = (.found cells', tickets', m')) :
    Pool.Binds (fun slot s => s ∈ operands ∧ slot.entrance ∈ cells') (m.pool.commitAll tickets)
      (m'.pool.commitAll tickets') := by
  induction operands generalizing cells tickets m with
  | nil =>
      obtain ⟨-, rfl, rfl⟩ := by simpa [resolve] using hr
      exact .refl ..
  | cons s rest ih =>
      have hmono (slot : PoolSlot) (u : Symbol) (hu : u ∈ rest ∧ slot.entrance ∈ cells') :
          u ∈ s :: rest ∧ slot.entrance ∈ cells' := ⟨List.mem_cons_of_mem _ hu.1, hu.2⟩
      obtain ⟨_, -, hr⟩ | ⟨-, hr⟩ | ⟨ticket, q, c, hreserve, hentrance, hr⟩ := resolve_cons_found hr
      · exact (ih h hr).mono hmono
      · exact (ih h hr).mono hmono
      · have hreserves := reserves_of_reserve? h.distinct hreserve
        have htail := (ih (m := { m with pool := q }) (h.reserve hreserves) hr).mono hmono
        refine Pool.Binds.trans ?_ htail
        show Pool.Binds _ _ (q.commitAll (tickets ++ [ticket]))
        rw [hreserves.commitAll_eq h]
        obtain ⟨slot, hslot, hhandle, hfree⟩ := hreserves.free
        have hkept : slot ∈ (m.pool.commitAll tickets).slots := by
          refine Pool.mem_commitAll h.distinct hslot ?_
          rw [hhandle]
          exact hreserves.handle_ne h
        rw [hreserves.entrance?_eq h.distinct hslot hhandle] at hentrance
        cases hentrance
        refine Pool.binds_commit (h.distinct.commitAll tickets) hkept hhandle hfree ⟨?_, ?_⟩
        · rw [symbol_of_reserve? hreserve]
          exact List.mem_cons_self
        · exact subset_of_resolve hr _ (List.mem_append_right _ List.mem_cons_self)

/-- For a gate that is no reset one cell is found for each operand, and a factory operand is then bound to a
factory with that entrance. -/
theorem resolve_holds (h : Pool.Pending p₀ tickets m.pool)
    (hr : job.resolve n false operands cells tickets m = (.found cells', tickets', m')) :
    ∃ found, cells' = cells ++ found ∧ List.Forall₂
      (fun s e => s.isFactory = true → (m'.pool.commitAll tickets').Holds s e) operands found := by
  induction operands generalizing cells tickets m with
  | nil =>
      obtain ⟨rfl, rfl, rfl⟩ := by simpa [resolve] using hr
      exact ⟨[], (List.append_nil _).symm, .nil⟩
  | cons s rest ih =>
      -- what is bound once the head is found stays bound while the rest is looked for
      have hkeep {c : Cell} {tickets : List Ticket} {m : Mapping}
          (h : Pool.Pending p₀ tickets m.pool)
          (hr : job.resolve n false rest (cells ++ [c]) tickets m = (.found cells', tickets', m'))
          (hheld : s.isFactory = true → (m.pool.commitAll tickets).Holds s c) :
          ∃ found, cells' = cells ++ found ∧ List.Forall₂
            (fun s e => s.isFactory = true → (m'.pool.commitAll tickets').Holds s e) (s :: rest) found := by
        obtain ⟨found, rfl, hfound⟩ := ih h hr
        refine ⟨c :: found, List.append_assoc .., .cons (fun hs => ?_) hfound⟩
        exact (resolve_binds h hr).holds (hheld hs)
      obtain ⟨c, hc, hrest⟩ | ⟨hreset, -⟩ | ⟨ticket, q, c, hreserve, hentrance, hrest⟩ :=
        resolve_cons_found hr
      · refine hkeep h hrest fun hs => ?_
        rw [Mapping.coordinate?, if_pos hs] at hc
        obtain ⟨slot, hbinding, hc⟩ := Option.map_eq_some_iff.1 hc
        have hbound : slot.occupancy = .bound s := by simpa using List.find?_some hbinding
        refine ⟨slot, Pool.mem_commitAll h.distinct (List.mem_of_find?_eq_some hbinding) ?_, hbound, hc⟩
        exact h.handle_ne (List.mem_of_find?_eq_some hbinding) (by simp [hbound])
      · cases hreset
      · have hreserves := reserves_of_reserve? h.distinct hreserve
        have hpending : Pool.Pending p₀ (tickets ++ [ticket]) ({ m with pool := q } : Mapping).pool :=
          h.reserve hreserves
        refine hkeep hpending hrest fun _ => ?_
        obtain ⟨slot, hslot, hhandle, -⟩ := hreserves.free
        have hkept : slot ∈ (m.pool.commitAll tickets).slots := by
          refine Pool.mem_commitAll h.distinct hslot ?_
          rw [hhandle]
          exact hreserves.handle_ne h
        have hmem := Pool.mem_commit (h.distinct.commitAll tickets) hkept hhandle
        rw [← hreserves.commitAll_eq h] at hmem
        rw [hreserves.entrance?_eq h.distinct hslot hhandle] at hentrance
        refine ⟨_, hmem, ?_, Option.some.inj hentrance⟩
        rw [symbol_of_reserve? hreserve]

namespace Admission

variable {f : Fabric} {n t : Nat}

theorem binds (a : Admission job f n t) (h : f.mapping.pool.Distinct) :
    Pool.Binds (fun slot s => s ∈ a.gate.operands ∧ slot.entrance ∈ a.cells) f.mapping.pool
      a.fabric.mapping.pool :=
  resolve_binds h.pending a.resolve_eq

/-- The cells of a gate that is no reset are those of its operands in order. -/
theorem holds (a : Admission job f n t) (h : f.mapping.pool.Distinct) (hreset : a.gate.isReset = false) :
    List.Forall₂ (fun s e => s.isFactory = true → a.fabric.mapping.pool.Holds s e) a.gate.operands
      a.cells := by
  have hresolve := a.resolve_eq
  rw [hreset] at hresolve
  obtain ⟨found, hcells, hfound⟩ := resolve_holds h.pending hresolve
  rw [hcells]
  exact hfound

theorem bound (a : Admission job f n t) (h : f.mapping.pool.Distinct) (hreset : a.gate.isReset = false) :
    ∀ s ∈ a.gate.operands, s.isFactory = true → (a.fabric.mapping.pool.binding? s).isSome = true := by
  intro s hs hfactory
  obtain ⟨i, hi⟩ := List.mem_iff_get.1 hs
  obtain ⟨hlength, hget⟩ := List.forall₂_iff_get.1 (a.holds h hreset)
  obtain ⟨slot, hslot, hbound, -⟩ := hget i i.2 (hlength ▸ i.2) (hi ▸ hfactory)
  exact Pool.binding?_isSome_iff.2 ⟨slot, hslot, hi ▸ hbound⟩

end Admission

theorem tryRoute_waits {f f' : Fabric} {n t : Nat} (h : f.mapping.pool.Distinct)
    (htry : job.tryRoute f n t = .ok (f', .ok none)) : f' = f := by
  rcases tryRoute_refused htry (by simp) with rfl | ⟨g, operands, tickets, m, hres, rfl⟩
  · rfl
  · exact rollback_resolve h hres

/-- A gate that ends changes the pool only if it is a reset, which gives the factory of its operand back. -/
theorem complete_pool (job : RoutingJob) (f : Fabric) (r : Route) :
    (job.complete f r).mapping.pool = f.mapping.pool ∨
      ∃ g u, job.circuit.gate? r.gate = some g ∧ g.isReset = true ∧ u ∈ g.operands ∧
        (job.complete f r).mapping.pool = f.mapping.pool.free u r.finish := by
  rw [complete]
  dsimp only
  split
  · exact .inl rfl
  · next g hg =>
      split
      · next hreset =>
          cases hoperand : g.factoryOperand? with
          | none => exact .inl rfl
          | some u => exact .inr ⟨g, u, hg, hreset, List.mem_of_find?_eq_some hoperand, rfl⟩
      · exact .inl rfl

theorem foldl_complete_distinct {f : Fabric} (h : f.mapping.pool.Distinct) (ended : List Route) :
    (ended.foldl job.complete f).mapping.pool.Distinct := by
  induction ended generalizing f with
  | nil => exact h
  | cons r ended ih =>
      refine ih ?_
      obtain hkeep | ⟨_, u, -, -, -, hfree⟩ := complete_pool job f r
      · exact hkeep ▸ h
      · exact hfree ▸ h.free u r.finish

theorem foldl_complete_bound {f : Fabric} {u : Symbol} {ended : List Route}
    (hended : ∀ r ∈ ended, ∀ g, job.circuit.gate? r.gate = some g → g.isReset = true → u ∉ g.operands)
    (h : (f.mapping.pool.binding? u).isSome = true) :
    ((ended.foldl job.complete f).mapping.pool.binding? u).isSome = true := by
  induction ended generalizing f with
  | nil => exact h
  | cons r ended ih =>
      refine ih (fun r' hr' => hended r' (List.mem_cons_of_mem _ hr')) ?_
      obtain hkeep | ⟨g, v, hg, hreset, hv, hfree⟩ := complete_pool job f r
      · exact hkeep ▸ h
      · have hne : u ≠ v := by
          rintro rfl
          exact hended r List.mem_cons_self g hg hreset hv
        exact hfree ▸ Pool.binding?_free h hne r.finish

/-- What the state of a run knows about factories. Gates were admitted after all they depend on had
finished, and a factory operand of a gate is bound until a later gate on it is admitted. -/
structure Custody (job : RoutingJob) (s : RoutingState) : Prop where
  distinct : s.fabric.mapping.pool.Distinct
  settled : ∀ r ∈ s.routes, ∀ p ∈ job.circuit.dependencies r.gate, p ∈ s.finished
  bound : ∀ r ∈ s.routes, ∀ g, job.circuit.gate? r.gate = some g → g.isReset = false →
    ∀ u ∈ g.operands, u.isFactory = true →
      (∀ r' ∈ s.routes, r.gate < r'.gate → ¬job.circuit.ActsOn r'.gate u) →
        (s.fabric.mapping.pool.binding? u).isSome = true

theorem Tracked.routed {s : RoutingState} (h : Tracked job s) {n : Nat} (hn : n ∈ s.finished) :
    ∃ r ∈ s.routes, r.gate = n := by
  obtain ⟨r, hr, heq, -⟩ := h.finished_ended n hn
  exact ⟨r, hr, heq⟩

theorem Tracked.not_finished {s : RoutingState} (h : Tracked job s) {r : Route} (hr : r ∈ s.running) :
    r.gate ∉ s.finished := by
  have hnodup := h.split.nodup_iff.2 h.nodup
  exact fun hfinished => List.disjoint_of_nodup_append hnodup hfinished (List.mem_map_of_mem hr)

namespace Custody

variable {s : RoutingState} {m n : Nat} {u : Symbol}

/-- Once all that a gate depends on has finished, so have all earlier gates on its operands. -/
theorem finished_of_shared (h : Custody job s) (htracked : Tracked job s) (hbuilt : job.circuit.Built)
    (hn : ∀ p ∈ job.circuit.dependencies n, p ∈ s.finished) (hlt : m < n)
    (hm : job.circuit.ActsOn m u) (hu : job.circuit.ActsOn n u) : m ∈ s.finished := by
  refine hbuilt.mem_of_shared ?_ hn hlt hm hu
  intro p hp
  obtain ⟨r, hr, rfl⟩ := htracked.routed hp
  exact h.settled r hr

/-- A reset that ends was admitted after every gate that used its factory before, and before every gate that
is to use it next. -/
theorem complete (h : Custody job s) (htracked : Tracked job s) (hbuilt : job.circuit.Built) :
    Custody job (job.completeDue s) := by
  refine ⟨foldl_complete_distinct h.distinct _, ?_, ?_⟩
  · intro r hr p hp
    exact List.mem_append_left _ (h.settled r hr p hp)
  · intro r hr g hg hreset u hu hfactory hlast
    refine foldl_complete_bound ?_ (h.bound r hr g hg hreset u hu hfactory hlast)
    intro r' hr' g' hg' hreset' hu'
    have hrunning := (mem_due.1 hr').1
    have hacts : job.circuit.ActsOn r'.gate u := ⟨g', hg', hu'⟩
    rcases Nat.lt_trichotomy r'.gate r.gate with hbefore | hsame | hafter
    · exact htracked.not_finished hrunning
        (h.finished_of_shared htracked hbuilt (h.settled r hr) hbefore hacts ⟨g, hg, hu⟩)
    · rw [hsame, hg] at hg'
      cases hg'
      rw [hreset] at hreset'
      cases hreset'
    · exact hlast r' (htracked.running_routed r' hrunning) hafter hacts

theorem enter (h : Custody job s) (hn : job.Admissible s n) (a : Admission job s.fabric n s.clock) :
    Custody job (s.enter a) := by
  refine ⟨(a.binds h.distinct).distinct h.distinct, ?_, ?_⟩
  · intro r hr
    rcases List.mem_append.1 hr with hr | hr
    · exact h.settled r hr
    · rw [List.mem_singleton.1 hr]
      exact hn.dependencies_finished
  · intro r hr g hg hreset u hu hfactory hlast
    rcases List.mem_append.1 hr with hr | hr
    · have hbound := h.bound r hr g hg hreset u hu hfactory fun r' hr' =>
        hlast r' (List.mem_append_left _ hr')
      obtain ⟨slot, hslot, hheld⟩ := Pool.binding?_isSome_iff.1 hbound
      refine Pool.binding?_isSome_iff.2 ⟨slot, ?_, hheld⟩
      exact (a.binds h.distinct).mem_of_not_free hslot (by simp [hheld])
    · rw [List.mem_singleton.1 hr] at hg
      have hsame : a.gate = g := Option.some.inj (a.gate_eq.symm.trans hg)
      subst hsame
      exact a.bound h.distinct hreset u hu hfactory

theorem step {s' : RoutingState} (h : Custody job s) (htracked : Tracked job s)
    (hbuilt : job.circuit.Built) (hstep : Step job pace slacks s s') : Custody job s' := by
  cases hstep with
  | complete => exact h.complete htracked hbuilt
  | wait _ htry =>
      rw [tryRoute_waits h.distinct htry]
      exact h
  | enter hn a => exact h.enter hn a
  | advance => exact ⟨h.distinct, h.settled, h.bound⟩

theorem reaches {s' : RoutingState} (h : Custody job s) (htracked : Tracked job s)
    (hbuilt : job.circuit.Built) (hreach : Reaches job pace slacks s s') : Custody job s' := by
  induction hreach with
  | refl => exact h
  | tail hreach hstep ih => exact ih.step (htracked.reaches hreach) hbuilt hstep

/-- Gates that wait at the same time have no operand in common. -/
theorem eq_of_shared (h : Custody job s) (htracked : Tracked job s) (hbuilt : job.circuit.Built)
    (hm : job.Admissible s m) (hn : job.Admissible s n) (hmu : job.circuit.ActsOn m u)
    (hnu : job.circuit.ActsOn n u) : m = n := by
  have hnot {k l : Nat} (hk : job.Admissible s k) (hl : job.Admissible s l)
      (hku : job.circuit.ActsOn k u) (hlu : job.circuit.ActsOn l u) : ¬k < l := by
    intro hlt
    have hfinished := h.finished_of_shared htracked hbuilt hl.dependencies_finished hlt hku hlu
    obtain ⟨r, hr, heq⟩ := htracked.routed hfinished
    exact hk.not_routed r hr heq
  have hle := hnot hn hm hnu hmu
  have hge := hnot hm hn hmu hnu
  omega

/-- The factories that a waiting gate of a staged circuit has beside another operand are bound. -/
theorem bound_of_staged (h : Custody job s) (htracked : Tracked job s) (hbuilt : job.circuit.Built)
    (hstaged : job.circuit.Staged) (hn : job.Admissible s n) {g : Gate}
    (hg : job.circuit.gate? n = some g) (hpair : g.operands.length = 2) (hu : u ∈ g.operands)
    (hfactory : u.isFactory = true) : (s.fabric.mapping.pool.binding? u).isSome = true := by
  obtain ⟨p, g', hprecedes, hg', hreset⟩ := (hstaged n g hg).2 hpair u hu hfactory
  have hnu : job.circuit.ActsOn n u := ⟨g, hg, hu⟩
  obtain ⟨r, hr, rfl⟩ := htracked.routed
    (hn.dependencies_finished p (hbuilt.precedes_mem hprecedes hnu))
  obtain ⟨_, hg'', hu'⟩ := hprecedes.acts
  rw [hg'] at hg''
  cases hg''
  refine h.bound r hr g' hg' hreset u hu' hfactory fun r' hr' hlt hacts => ?_
  -- a later gate on the factory would have waited for this one
  rcases Nat.lt_trichotomy r'.gate n with hbefore | hsame | hafter
  · exact hprecedes.last r'.gate hlt hbefore hacts
  · exact hn.not_routed r' hr' hsame
  · obtain ⟨r'', hr'', heq⟩ := htracked.routed
      (h.finished_of_shared htracked hbuilt (h.settled r' hr') hafter hnu hacts)
    exact hn.not_routed r'' hr'' heq

end Custody

end RoutingJob

end SurfaceFabric
