import SurfaceFabric.Proofs.Circuit.Interaction
import SurfaceFabric.Proofs.Pool.Faces
import SurfaceFabric.Proofs.Schedule.Supply

/-!
Which factory a schedule records for which gate. Where factories have different handles a gate that takes one
takes a free one, and its symbol keeps it until a reset of the symbol ends. So a factory that is recorded twice
was given back in between, by a reset that comes after the first of the two gates.
-/

namespace SurfaceFabric

namespace Pool

variable {p : Pool} {i x : Nat} {slot : PoolSlot} {s u : Symbol}

def labels (p : Pool) : List (Nat × String) := p.slots.map fun slot => (slot.handle, slot.template)

theorem labels_free (p : Pool) (s : Symbol) (tick : Nat) : (p.free s tick).labels = p.labels := by
  apply map_updateFirst
  exact fun _ => rfl

theorem mem_labels {template : String} :
    (x, template) ∈ p.labels ↔ ∃ slot ∈ p.slots, slot.handle = x ∧ slot.template = template := by
  simp [labels]

def Lends (p : Pool) (s : Symbol) (x : Nat) : Prop :=
  ∃ slot ∈ p.slots, slot.occupancy = .bound s ∧ slot.handle = x

/-- The pool after a symbol took the factory at a position. -/
def lendAt (p : Pool) (i : Nat) (slot : PoolSlot) (s : Symbol) : Pool :=
  ⟨p.slots.set i { slot with occupancy := .bound s }⟩

namespace Suits

theorem labels_lendAt (h : p.Suits i slot s) : (p.lendAt i slot s).labels = p.labels := by
  have hlabel : p.labels[i]? = some (slot.handle, slot.template) := by
    rw [labels, List.getElem?_map, h.get, Option.map_some]
  obtain ⟨hlt, hsame⟩ := List.getElem?_eq_some_iff.1 hlabel
  rw [labels, lendAt, List.map_set]
  show p.labels.set i (slot.handle, slot.template) = p.labels
  rw [← hsame, List.set_getElem_self]

theorem kept_lendAt (h : p.Suits i slot s) (hkept : p.Kept []) : (p.lendAt i slot s).Kept [] := by
  refine hkept.set h.get rfl ?_ ?_
  · intro u hu
    obtain rfl : s = u := by simpa [Occupancy.heldBy] using hu
    exact ⟨h.template, .inr h.not_held⟩
  · rw [flatMap_set_eq h.get]
    · exact hkept.reserved
    · simp [PoolSlot.tickets, h.free]

theorem lends_self (h : p.Suits i slot s) : (p.lendAt i slot s).Lends s slot.handle := by
  obtain ⟨hlt, -⟩ := List.getElem?_eq_some_iff.1 h.get
  exact ⟨_, List.mem_set hlt _, rfl, rfl⟩

/-- What was lent before is lent still, as the factory taken was free. -/
theorem lends (h : p.Suits i slot s) (hu : p.Lends u x) : (p.lendAt i slot s).Lends u x := by
  obtain ⟨other, hother, hbound, hhandle⟩ := hu
  refine ⟨other, ?_, hbound, hhandle⟩
  obtain ⟨j, hj⟩ := List.mem_iff_getElem?.1 hother
  have hne : i ≠ j := by
    rintro rfl
    obtain rfl := Option.some.inj (h.get.symm.trans hj)
    rw [h.free] at hbound
    cases hbound
  apply List.mem_of_getElem? (i := j)
  rw [lendAt, List.getElem?_set_ne hne, hj]

/-- The factory taken was lent to nobody. -/
theorem not_lends (h : p.Suits i slot s) (hdistinct : p.Distinct) : ¬p.Lends u slot.handle := by
  rintro ⟨other, hother, hbound, hhandle⟩
  obtain rfl := List.inj_on_of_nodup_map hdistinct hother (List.mem_of_getElem? h.get) hhandle
  rw [h.free] at hbound
  cases hbound

end Suits

end Pool

/-- A gate and the factory symbol it draws on, which is the first among its operands. A reset draws on none. -/
def Circuit.Draws (c : Circuit) (n : Nat) (u : Symbol) : Prop :=
  ∃ g, c.gate? n = some g ∧ g.isReset = false ∧ g.factoryOperand? = some u

instance (c : Circuit) (n : Nat) (u : Symbol) : Decidable (c.Draws n u) :=
  decidable_of_iff (∃ g ∈ c.gate? n, g.isReset = false ∧ g.factoryOperand? = some u) Iff.rfl

theorem Circuit.Draws.employs {c : Circuit} {n : Nat} {u : Symbol} (h : c.Draws n u) : c.Employs n u := by
  obtain ⟨g, hg, hreset, hoperand⟩ := h
  exact ⟨g, hg, hreset, List.mem_of_find?_eq_some hoperand⟩

namespace Job

variable {job : Job} {c : Circuit} {m m' : Moment} {pool pool' : Pool} {labels : List (Nat × String)}
  {started : List Start} {done : List Nat} {n t x : Nat} {u : Symbol}

/-- What a start does to a pool in which no handle is given twice. -/
theorem engage?_lends {g : Gate} {length : Nat} {binding : Option Nat} (hdistinct : pool.Distinct)
    (h : engage? pool g t = some (length, binding, pool')) :
    pool' = pool ∧ binding = none ∨ ∃ u i slot, g.factoryOperand? = some u ∧ g.isReset = false ∧
      pool.Suits i slot u ∧ pool' = pool.lendAt i slot u ∧ binding = some slot.handle := by
  obtain ⟨rfl, rfl, -⟩ | ⟨u, k, q, hoperand, hreset, hreserve, rfl, rfl⟩ := engage?_cases h
  · exact .inl ⟨rfl, rfl⟩
  · obtain ⟨i, slot, hchooses, hhandle, hcommit, -⟩ := Pool.chooses_of_reserve? hdistinct hreserve
    exact .inr ⟨u, i, slot, hoperand, hreset, hchooses.suits, hcommit, congrArg some hhandle⟩

/-- A gate that ends takes the factory from the symbol that it resets, and from no other. -/
theorem settle_lends (hbuilt : job.circuit.Built) (h : pool.Kept []) (t : Nat) (z : Start) :
    (job.settle t pool z).Kept [] ∧ (job.settle t pool z).labels = pool.labels ∧
      ∀ u x, (job.settle t pool z).Lends u x ↔ pool.Lends u x ∧ ¬job.circuit.Resets z.node u := by
  obtain ⟨heq, hnone⟩ | ⟨w, heq, hresets⟩ := settle_cases hbuilt t pool z
  · rw [heq]
    exact ⟨h, rfl, fun u x => (and_iff_left (hnone u)).symm⟩
  · rw [heq]
    refine ⟨h.free w t, pool.labels_free w t, fun u x => ?_⟩
    rw [hresets]
    exact h.bound_free fun slot => slot.handle = x

/-- By a tick the factory recorded for a start is given back: a reset of its symbol that comes after it has
ended. -/
def Vacates (c : Circuit) (started : List Start) (s : Start) (t : Nat) : Prop :=
  ∃ u, c.Draws s.node u ∧ ∃ z ∈ started, c.Resets z.node u ∧ s.node < z.node ∧ z.finish ≤ t

theorem Vacates.append {s : Start} (h : Vacates c started s t) (more : List Start) :
    Vacates c (started ++ more) s t := by
  obtain ⟨u, hdraws, z, hz, hrest⟩ := h
  exact ⟨u, hdraws, z, List.mem_append_left _ hz, hrest⟩

/-- Who has a factory, and who had it before. The factory recorded for a start is of the template of its symbol,
which has it until a later reset of the symbol is done. -/
structure Lending (c : Circuit) (labels : List (Nat × String)) (pool : Pool) (started : List Start)
    (done : List Nat) : Prop where
  kept : pool.Kept []
  labels_eq : pool.labels = labels
  drawn : ∀ u x, pool.Lends u x → ∃ n, c.Draws n u
  granted : ∀ s ∈ started, ∀ x, s.binding = some x → ∃ u template, c.Draws s.node u ∧
    u.template? = some template ∧ (x, template) ∈ labels ∧
      (pool.Lends u x ∨ ∃ z ∈ done, c.Resets z u ∧ s.node < z)
  apart : ∀ s ∈ started, ∀ r ∈ started, ∀ x, s ≠ r → s.binding = some x → r.binding = some x →
    s.start ≤ r.start → Vacates c started s r.start

namespace Lending

theorem start (hdistinct : pool.Distinct) (hfree : ∀ slot ∈ pool.slots, slot.occupancy = .free) :
    Lending c pool.labels pool [] [] := by
  refine ⟨.of_free hdistinct hfree, rfl, ?_, by simp, by simp⟩
  rintro u x ⟨slot, hslot, hbound, -⟩
  rw [hfree slot hslot] at hbound
  cases hbound

/-- A start that records no factory. -/
theorem beginPlain (h : Lending c labels pool started done) {s : Start} (hnone : s.binding = none) :
    Lending c labels pool (started ++ [s]) done := by
  have hold {r : Start} {x : Nat} (hr : r ∈ started ++ [s]) (hbinding : r.binding = some x) :
      r ∈ started := by
    rcases List.mem_append.1 hr with hr | hr
    · exact hr
    · rw [List.mem_singleton.1 hr, hnone] at hbinding
      cases hbinding
  refine ⟨h.kept, h.labels_eq, h.drawn, fun r hr x hx => h.granted r (hold hr hx) x hx, ?_⟩
  intro r hr r' hr' x hne hx hx' hle
  exact (h.apart r (hold hr hx) r' (hold hr' hx') x hne hx hx' hle).append _

/-- Whoever had a free factory before has given it back by now. -/
theorem vacates (h : Lending job.circuit labels m.pool m.started m.finished) (htimely : Timely job m)
    {s : Start} (hs : s ∈ m.started) (hx : s.binding = some x) (hfree : ∀ u, ¬m.pool.Lends u x) :
    Vacates job.circuit m.started s m.clock := by
  obtain ⟨u, template, hdraws, -, -, hlends | ⟨z, hz, hreset, hlt⟩⟩ := h.granted s hs x hx
  · exact absurd hlends (hfree u)
  · obtain ⟨r, hr, rfl, hend⟩ := htimely.ended z hz
    exact ⟨u, hdraws, r, hr, hreset, hlt, hend⟩

/-- A start whose factory was given back by now is not of now. -/
theorem start_lt (h : Lending job.circuit labels m.pool m.started m.finished) (htimely : Timely job m)
    (hbuilt : job.circuit.Built) {s : Start} (hs : s ∈ m.started) (hx : s.binding = some x)
    (hfree : ∀ u, ¬m.pool.Lends u x) : s.start < m.clock := by
  obtain ⟨u, template, hdraws, -, -, hlends | ⟨z, hz, hreset, hlt⟩⟩ := h.granted s hs x hx
  · exact absurd hlends (hfree u)
  · -- it shares the symbol with a later gate that is done, so it is done as well
    have hpacing := htimely.pacing hbuilt
    have hdone : s.node ∈ m.finished :=
      hpacing.settled z (hpacing.done_begun z hz) s.node hlt u hdraws.employs.actsOn hreset.actsOn
    obtain ⟨r, hr, hnode, hend⟩ := htimely.ended s.node hdone
    obtain rfl := List.inj_on_of_nodup_map htimely.tracked.nodup hr hs hnode
    obtain ⟨g, hgate, hfits⟩ := htimely.timed r hr
    have hlength := (hfits.bounds (hbuilt.cycles_pos hgate)).1
    omega

theorem begin {g : Gate} {length : Nat} {binding : Option Nat}
    (h : Lending job.circuit labels m.pool m.started m.finished) (htimely : Timely job m)
    (hbuilt : job.circuit.Built) (hgate : job.circuit.gate? n = some g)
    (hengage : engage? m.pool g m.clock = some (length, binding, pool)) :
    Lending job.circuit labels pool (m.started ++ [⟨n, m.clock, m.clock + length, binding⟩]) m.finished := by
  obtain ⟨rfl, hnone⟩ | ⟨u, i, slot, hoperand, hreset, hsuits, rfl, rfl⟩ := engage?_lends h.kept.distinct hengage
  · exact h.beginPlain hnone
  · have hdraws : job.circuit.Draws n u := ⟨g, hgate, hreset, hoperand⟩
    have hfree (v : Symbol) : ¬m.pool.Lends v slot.handle := hsuits.not_lends h.kept.distinct
    refine ⟨hsuits.kept_lendAt h.kept, hsuits.labels_lendAt.trans h.labels_eq, ?_, ?_, ?_⟩
    · rintro v x ⟨other, hother, hbound, hhandle⟩
      obtain hold | rfl := List.mem_or_eq_of_mem_set hother
      · exact h.drawn v x ⟨other, hold, hbound, hhandle⟩
      · obtain rfl := Occupancy.bound.inj hbound
        exact ⟨n, hdraws⟩
    · intro s hs x hx
      rcases List.mem_append.1 hs with hs | hs
      · obtain ⟨v, template, hv, htemplate, hlabel, hlends⟩ := h.granted s hs x hx
        exact ⟨v, template, hv, htemplate, hlabel, hlends.imp_left hsuits.lends⟩
      · rw [List.mem_singleton.1 hs] at hx ⊢
        obtain rfl : slot.handle = x := Option.some.inj hx
        refine ⟨u, slot.template, hdraws, hsuits.template, ?_, .inl hsuits.lends_self⟩
        rw [← h.labels_eq, Pool.mem_labels]
        exact ⟨slot, List.mem_of_getElem? hsuits.get, rfl, rfl⟩
    · intro s hs r hr x hne hx hx' hle
      rcases List.mem_append.1 hs with hs | hs
      · rcases List.mem_append.1 hr with hr | hr
        · exact (h.apart s hs r hr x hne hx hx' hle).append _
        · rw [List.mem_singleton.1 hr] at hx' ⊢
          obtain rfl : slot.handle = x := Option.some.inj hx'
          exact (h.vacates htimely hs hx hfree).append _
      · rcases List.mem_append.1 hr with hr | hr
        · -- an earlier start on the same factory is over, so it cannot begin as late as this one
          rw [List.mem_singleton.1 hs] at hx hle
          obtain rfl : slot.handle = x := Option.some.inj hx
          exact absurd (h.start_lt htimely hbuilt hr hx' hfree) (Nat.not_lt.2 hle)
        · exact absurd ((List.mem_singleton.1 hs).trans (List.mem_singleton.1 hr).symm) hne

/-- The end of a gate. If it is a reset, it comes after all gates that have begun on its symbol. -/
theorem settle {z : Start} (hbuilt : job.circuit.Built) (h : Lending job.circuit labels pool started done)
    (hpacing : job.circuit.Pacing (started.map Start.node) done) (hrunning : z.node ∉ done) (t : Nat) :
    Lending job.circuit labels (job.settle t pool z) started (done ++ [z.node]) := by
  obtain ⟨hkept, hlabels, hlends⟩ := settle_lends hbuilt h.kept t z
  refine ⟨hkept, hlabels.trans h.labels_eq, fun u x hu => h.drawn u x ((hlends u x).1 hu).1, ?_, h.apart⟩
  intro s hs x hx
  obtain ⟨u, template, hdraws, htemplate, hlabel, hlent | ⟨r, hr, hrest⟩⟩ := h.granted s hs x hx
  · refine ⟨u, template, hdraws, htemplate, hlabel, ?_⟩
    by_cases hreset : job.circuit.Resets z.node u
    · refine .inr ⟨z.node, List.mem_append_right _ (List.mem_singleton_self _), hreset, ?_⟩
      rcases Nat.lt_trichotomy s.node z.node with hlt | heq | hgt
      · exact hlt
      · exact absurd (heq ▸ hreset) hdraws.employs.not_resets
      · exact absurd (hpacing.settled s.node (List.mem_map_of_mem hs) z.node hgt u hreset.actsOn
          hdraws.employs.actsOn) hrunning
    · exact .inl ((hlends u x).2 ⟨hlent, hreset⟩)
  · exact ⟨u, template, hdraws, htemplate, hlabel, .inr ⟨r, List.mem_append_left _ hr, hrest⟩⟩

theorem settleAll {due : List Start} (hbuilt : job.circuit.Built)
    (h : Lending job.circuit labels pool started done)
    (hpacing : job.circuit.Pacing (started.map Start.node) done)
    (hdue : ∀ s ∈ due, s ∈ started) (hnodup : (done ++ due.map Start.node).Nodup) (t : Nat) :
    Lending job.circuit labels (due.foldl (job.settle t) pool) started (done ++ due.map Start.node) := by
  induction due generalizing pool done with
  | nil => simpa using h
  | cons z due ih =>
      have hrunning : z.node ∉ done := fun hmem =>
        List.disjoint_of_nodup_append hnodup hmem List.mem_cons_self
      rw [List.map_cons, List.append_cons] at hnodup ⊢
      exact ih (h.settle hbuilt hpacing hrunning t)
        (hpacing.finish (List.mem_map_of_mem (hdue z List.mem_cons_self)))
        (fun r hr => hdue r (List.mem_cons_of_mem _ hr)) hnodup

theorem complete {due : List Start} (h : Lending job.circuit labels m.pool m.started m.finished)
    (htimely : Timely job m) (hbuilt : job.circuit.Built) (hdue : nextDue m = (t, due)) (hsome : due ≠ []) :
    Lending job.circuit labels (due.foldl (job.settle t) m.pool) m.started
      (m.finished ++ due.map Start.node) :=
  h.settleAll hbuilt (htimely.pacing hbuilt) (htimely.due_started hdue hsome)
    (htimely.nodup_due hdue hsome) t

theorem reaches (h : Lending job.circuit labels m.pool m.started m.finished) (htimely : Timely job m)
    (hbuilt : job.circuit.Built) (hreach : Reaches job m m') :
    Lending job.circuit labels m'.pool m'.started m'.finished := by
  induction hreach with
  | refl => exact h
  | tail hreach hevent ih =>
      have htimely := htimely.reaches hbuilt hreach
      cases hevent with
      | start _ hgate _ hengage => exact ih.begin htimely hbuilt hgate hengage
      | complete hdue hsome => exact ih.complete htimely hbuilt hdue hsome

end Lending

end Job

/-- The factories that a schedule records are of the templates that the gates ask for, and no two gates share
one, unless a reset after the first of them has given it back before the second starts. -/
theorem ofCircuit_bindings_exclusive {c : Circuit} {pool : Pool} {budget : Nat} {s : Schedule} (hbuilt : c.Built)
    (hdistinct : pool.Distinct) (hfree : ∀ slot ∈ pool.slots, slot.occupancy = .free)
    (h : Schedule.ofCircuit c pool budget = .ok s) :
    (∀ n x, s.binding? n = some x → ∃ u, c.Draws n u ∧
      ∃ slot ∈ pool.slots, slot.handle = x ∧ u.template? = some slot.template) ∧
    ∀ n n' x start start', n ≠ n' → s.binding? n = some x → s.binding? n' = some x →
      s.start? n = some start → s.start? n' = some start' → start ≤ start' →
        ∃ u z finish, c.Draws n u ∧ c.Resets z u ∧ Relation.TransGen c.Edge n z ∧
          s.finish? z = some finish ∧ finish ≤ start' := by
  obtain ⟨slacks, channels, -, hsimulate⟩ := Schedule.exists_simulate_of_ofCircuit h
  obtain ⟨m, hreach, hsize, rfl⟩ := Job.reaches_of_simulate hsimulate
  have hstart := Job.timely_start ⟨c, slacks, channels⟩ pool
  have htracked := (hstart.reaches hbuilt hreach).tracked
  have hlending := (Job.Lending.start (c := c) hdistinct hfree).reaches hstart hbuilt hreach
  constructor
  · intro n x hrow
    obtain ⟨r, hr, rfl, hx⟩ := (htracked.binding?_eq_some_iff hsize).1 hrow
    obtain ⟨u, template, hdraws, htemplate, hlabel, -⟩ := hlending.granted r hr x hx
    obtain ⟨slot, hslot, hhandle, rfl⟩ := Pool.mem_labels.1 hlabel
    exact ⟨u, hdraws, slot, hslot, hhandle, htemplate⟩
  · intro n n' x start start' hne hrow hrow' hstart hstart' hle
    obtain ⟨r, hr, rfl, hx⟩ := (htracked.binding?_eq_some_iff hsize).1 hrow
    obtain ⟨r', hr', rfl, hx'⟩ := (htracked.binding?_eq_some_iff hsize).1 hrow'
    obtain rfl : r.start = start := Option.some.inj ((htracked.row_eq hr).1.symm.trans hstart)
    obtain rfl : r'.start = start' := Option.some.inj ((htracked.row_eq hr').1.symm.trans hstart')
    have hdifferent : r ≠ r' := fun heq => hne (congrArg Start.node heq)
    obtain ⟨u, hdraws, z, hz, hreset, hlt, hend⟩ := hlending.apart r hr r' hr' x hdifferent hx hx' hle
    refine ⟨u, z.node, z.finish, hdraws, hreset, ?_, (htracked.row_eq hz).2.1, hend⟩
    exact hbuilt.transGen_edge hlt hdraws.employs.actsOn hreset.actsOn

/-- The last gate works with the factory that an earlier symbol had. -/
theorem tightStock_bindings_exclusive : TightStock.circuit.Built ∧
    (Pool.ofLayout TightStock.layout).Distinct ∧
    (∀ slot ∈ (Pool.ofLayout TightStock.layout).slots, slot.occupancy = .free) ∧
    Schedule.ofCircuit TightStock.circuit (.ofLayout TightStock.layout) 2 = .ok TightStock.schedule ∧
    TightStock.schedule.binding? 1 = some 1 ∧ TightStock.schedule.binding? 3 = some 1 ∧
    (∃ u, TightStock.circuit.Draws 3 u ∧ ∃ slot ∈ (Pool.ofLayout TightStock.layout).slots,
      slot.handle = 1 ∧ u.template? = some slot.template) ∧
    ∃ u z finish, TightStock.circuit.Draws 1 u ∧ TightStock.circuit.Resets z u ∧
      Relation.TransGen TightStock.circuit.Edge 1 z ∧ TightStock.schedule.finish? z = some finish ∧ finish ≤ 3 := by
  have hdistinct := Pool.distinct_ofLayout TightStock.built_layout
  have hfree : ∀ slot ∈ (Pool.ofLayout TightStock.layout).slots, slot.occupancy = .free :=
    fun _ => Pool.free_ofLayout
  have hschedule : Schedule.ofCircuit TightStock.circuit (.ofLayout TightStock.layout) 2 =
      .ok TightStock.schedule := by
    apply Outcome.settle_eq_ok_ok_iff.1
    decide +kernel
  obtain ⟨htemplate, happart⟩ := ofCircuit_bindings_exclusive TightStock.built_circuit hdistinct
    hfree hschedule
  exact ⟨TightStock.built_circuit, hdistinct, hfree, hschedule, rfl, rfl, htemplate 3 1 rfl,
    happart 1 3 1 0 3 (by decide) rfl rfl rfl rfl (by decide)⟩

end SurfaceFabric
