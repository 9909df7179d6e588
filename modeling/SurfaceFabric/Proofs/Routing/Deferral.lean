import SurfaceFabric.Proofs.Routing.Custody
import SurfaceFabric.Proofs.Routing.Quiet

/-!
Gates that go on waiting. Others may be admitted after a gate in the same round, and then hold cells and
factories that were free before. None of this helps the gate, unless it has to choose: with two operands at
most there is one leg to find, and a factory that it takes alone is the same one again.
-/

namespace SurfaceFabric

namespace RoutingJob

variable {job : RoutingJob} {n t : Nat} {f f' : Fabric}

/-- A fabric after the admission of gates at a tick that have no operand in common with the given one. -/
structure Overtaken (job : RoutingJob) (n t : Nat) (f f' : Fabric) : Prop where
  cells_eq : f'.mapping.cells = f.mapping.cells
  grid : f.grid.Extends f'.grid
  pool : Pool.Binds
    (fun slot u => ¬job.circuit.ActsOn n u ∧ f.grid.isFree slot.entrance t (t + 1) = true)
    f.mapping.pool f'.mapping.pool

namespace Overtaken

theorem refl (job : RoutingJob) (n t : Nat) (f : Fabric) : Overtaken job n t f f :=
  ⟨rfl, .refl _, .refl _ _⟩

theorem enter (h : Overtaken job n t f f') (hdistinct : f'.mapping.pool.Distinct) {m : Nat}
    (a : Admission job f' m t) (hapart : ∀ u, job.circuit.ActsOn m u → ¬job.circuit.ActsOn n u) :
    Overtaken job n t f a.fabric := by
  refine ⟨(tryRoute_cells (tryRoute_eq_some_iff.2 ⟨a, rfl, rfl⟩)).trans h.cells_eq,
    h.grid.trans a.extends, h.pool.trans ((a.binds hdistinct).mono ?_)⟩
  rintro slot u ⟨hu, hslot⟩
  refine ⟨hapart u ⟨a.gate, a.gate_eq, hu⟩, h.grid.isFree ?_⟩
  exact LockGrid.isFree_mono (a.cells_free _ hslot) le_rfl a.lt_stop

theorem coordinate?_eq (h : Overtaken job n t f f') {u : Symbol} (hu : job.circuit.ActsOn n u) :
    f'.mapping.coordinate? u = f.mapping.coordinate? u := by
  rw [Mapping.coordinate?, Mapping.coordinate?, Mapping.cell?, Mapping.cell?, h.cells_eq,
    h.pool.binding?_eq fun _ hclaim => hclaim.1 hu]

end Overtaken

section Reservations

variable {claim : PoolSlot → Symbol → Prop} {p q : Pool} {u : Symbol}

theorem reserve?_eq_none (h : Pool.Binds claim p q) (hu : ∀ slot, ¬claim slot u)
    (hp : job.reserve? p n u = none) : job.reserve? q n u = none := by
  rw [reserve?_eq, Option.or_eq_none_iff] at hp ⊢
  refine ⟨?_, h.reserveBy_eq_none Pool.steady_preferred? hu hp.2⟩
  cases hbinding : job.schedule.binding? n with
  | none => rfl
  | some handle =>
      rw [hbinding] at hp
      exact h.reserveBy_eq_none (Pool.steady_offered? handle) hu hp.1

theorem reserve?_eq_some {k : Ticket} {p' : Pool} (h : Pool.Binds claim p q) (hu : ∀ slot, ¬claim slot u)
    (hk : ∀ slot ∈ p.slots, slot.handle = k.handle → ∀ v, ¬claim slot v)
    (hp : job.reserve? p n u = some (k, p')) : ∃ q', job.reserve? q n u = some (k, q') := by
  rw [reserve?_eq] at hp ⊢
  rcases Option.or_eq_some_iff.1 hp with hp | ⟨hnone, hp⟩
  · obtain ⟨handle, hhandle, hp⟩ := Option.bind_eq_some_iff.1 hp
    obtain ⟨q', hq'⟩ := h.reserveBy_eq_some (Pool.steady_offered? handle) hu hk hp
    exact ⟨q', Option.or_eq_some_iff.2 (.inl (Option.bind_eq_some_iff.2 ⟨handle, hhandle, hq'⟩))⟩
  · obtain ⟨q', hq'⟩ := h.reserveBy_eq_some Pool.steady_preferred? hu hk hp
    refine ⟨q', Option.or_eq_some_iff.2 (.inr ⟨?_, hq'⟩)⟩
    -- the factory that the schedule bound was not to be had and still is not
    cases hbinding : job.schedule.binding? n with
    | none => rfl
    | some handle =>
        rw [hbinding] at hnone
        exact h.reserveBy_eq_none (Pool.steady_offered? handle) hu hnone

end Reservations

/-- Operands that are all in their cells, or in none and no factories, are looked up alike. -/
theorem resolve_congr {isReset : Bool} {operands : List Symbol} {cells : List Cell}
    {tickets tickets' : List Ticket} {m m' : Mapping}
    (h : ∀ u ∈ operands, m'.coordinate? u = m.coordinate? u ∧
      (u.isFactory = true → ∃ c, m.coordinate? u = some c)) :
    (job.resolve n isReset operands cells tickets' m').1 =
      (job.resolve n isReset operands cells tickets m).1 := by
  induction operands generalizing cells with
  | nil => rfl
  | cons u rest ih =>
      obtain ⟨hsame, hfactory⟩ := h u List.mem_cons_self
      rw [resolve, resolve, hsame]
      cases hc : m.coordinate? u with
      | some c => exact ih fun v hv => h v (List.mem_cons_of_mem _ hv)
      | none =>
          have hplain : u.isFactory = false := by
            by_contra hnot
            obtain ⟨c, hc'⟩ := hfactory (Bool.not_eq_false _ ▸ hnot)
            rw [hc] at hc'
            cases hc'
          simp [hplain]

theorem length_of_resolve {isReset : Bool} {operands : List Symbol} {cells cells' : List Cell}
    {tickets tickets' : List Ticket} {m m' : Mapping}
    (h : job.resolve n isReset operands cells tickets m = (.found cells', tickets', m')) :
    cells'.length ≤ cells.length + operands.length := by
  induction operands generalizing cells tickets m with
  | nil =>
      obtain ⟨rfl, -, -⟩ := by simpa [resolve] using h
      exact Nat.le_refl _
  | cons u rest ih =>
      obtain ⟨_, -, h⟩ | ⟨-, h⟩ | ⟨_, _, _, -, -, h⟩ := resolve_cons_found h
      · have := ih h
        simp only [List.length_append, List.length_cons, List.length_nil] at this ⊢
        omega
      · have := ih h
        simp only [List.length_cons]
        omega
      · have := ih h
        simp only [List.length_append, List.length_cons, List.length_nil] at this ⊢
        omega

/-- A gate has to wait: a factory is lacking, or no route between its operands is to be had. -/
def Waits (job : RoutingJob) (f : Fabric) (n t : Nat) (g : Gate) : Prop :=
  match (job.resolve n g.isReset g.operands [] [] f.mapping).1 with
  | .found cells => job.plan? f n t (t + max g.cycles 1) cells = .ok none
  | .lacking => True
  | .unmapped _ => False

theorem waits_of_tryRoute {g : Gate} (hg : job.circuit.gate? n = some g)
    (h : job.tryRoute f n t = .ok (f', .ok none)) : job.Waits f n t g := by
  rw [tryRoute, hg] at h
  obtain ⟨stop, hstop, h⟩ := bind_eq_ok_iff.1 h
  obtain ⟨-, rfl⟩ := Word.add_eq_ok_iff.1 hstop
  rw [Waits]
  generalize job.resolve n g.isReset g.operands [] [] f.mapping = found at h ⊢
  obtain ⟨operands, tickets, m⟩ := found
  cases operands with
  | unmapped u => cases h
  | lacking => trivial
  | found cells =>
      obtain ⟨plan, hplan, h⟩ := bind_eq_ok_iff.1 h
      cases plan with
      | none => exact hplan
      | some p => cases h

/-- A gate that has to wait gives back what was reserved for it, unless its end is out of the word. -/
theorem Waits.tryRoute_rollback {g : Gate} (h : job.Waits f n t g) (hg : job.circuit.gate? n = some g) :
    ∃ found tickets m, job.resolve n g.isReset g.operands [] [] f.mapping = (found, tickets, m) ∧
      job.tryRoute f n t = if t + max g.cycles 1 ≤ Word.top
        then .ok (Fabric.rollback { f with mapping := m } tickets, .ok none) else .error .overflow := by
  obtain ⟨⟨operands, tickets, m⟩, hresolve⟩ :
    ∃ r, job.resolve n g.isReset g.operands [] [] f.mapping = r := ⟨_, rfl⟩
  refine ⟨operands, tickets, m, hresolve, ?_⟩
  rw [Waits, hresolve] at h
  rw [tryRoute, hg]
  dsimp only
  rw [Word.add, hresolve]
  split
  · cases operands with
    | unmapped u => exact h.elim
    | lacking => rfl
    | found cells => exact bind_eq_ok_iff.2 ⟨_, rfl, bind_eq_ok_iff.2 ⟨none, h, rfl⟩⟩
  · rfl

/-- A gate that has to wait leaves the fabric as it is, unless its end is out of the word. -/
theorem Waits.tryRoute_eq {g : Gate} (h : job.Waits f n t g) (hg : job.circuit.gate? n = some g)
    (hdistinct : f.mapping.pool.Distinct) :
    job.tryRoute f n t = if t + max g.cycles 1 ≤ Word.top then .ok (f, .ok none)
      else .error .overflow := by
  obtain ⟨found, tickets, m, hresolve, heq⟩ := h.tryRoute_rollback hg
  rw [heq, rollback_resolve hdistinct hresolve]

def entranceFor? (job : RoutingJob) (pool : Pool) (n : Nat) (u : Symbol) : Option Cell :=
  (job.reserve? pool n u).bind fun reserved => reserved.2.entrance? reserved.1.handle

/-- An unbound factory that a gate has for its only operand is looked up in the pool. -/
theorem resolve_single {u : Symbol} {m : Mapping} (hfactory : u.isFactory = true)
    (hunbound : m.coordinate? u = none) : (job.resolve n false [u] [] [] m).1 =
      ((job.entranceFor? m.pool n u).map fun c => Operands.found [c]).getD .lacking := by
  rw [resolve, hunbound, entranceFor?]
  simp only [hfactory]
  cases job.reserve? m.pool n u with
  | none => rfl
  | some reserved =>
      obtain ⟨k, p⟩ := reserved
      simp only [Option.bind_some]
      cases p.entrance? k.handle with
      | none => rfl
      | some c => rfl

/-- A gate that had to wait at a tick, on a fabric that other gates have changed since. -/
structure Deferred (job : RoutingJob) (n t : Nat) (g : Gate) (f f' : Fabric) : Prop where
  gate_eq : job.circuit.gate? n = some g
  length_le : g.operands.length ≤ 2
  bound : g.operands.length = 2 → ∀ u ∈ g.operands, u.isFactory = true →
    (f.mapping.pool.binding? u).isSome = true
  distinct : f.mapping.pool.Distinct
  waits : job.Waits f n t g
  overtaken : Overtaken job n t f f'

namespace Deferred

variable {g : Gate} {t' limit : Nat}

/-- A cell that is held for the only operand of a waiting gate is held at that very tick. -/
theorem not_free_single (h : Deferred job n t g f f') (hbegun : ∀ x ∈ f'.grid.holds, x.lock.start ≤ t)
    {c : Cell} (hfound : (job.resolve n g.isReset g.operands [] [] f.mapping).1 = .found [c]) :
    f.grid.isFree c t (t + 1) = false := by
  by_contra hfree
  rw [Bool.not_eq_false] at hfree
  have hquiet : f.grid.Quiet t (t + 1) := by
    refine ⟨fun x hx => hbegun x (h.overtaken.grid.holds x hx), fun x _ => ?_⟩
    omega
  have hwhole : ∀ d ∈ [c], f.grid.isFree d t (t + max g.cycles 1) = true := by
    simpa using hquiet.isFree le_rfl (Nat.lt_succ_self t) (Nat.lt_succ_self t) hfree
  -- with one cell there are no legs to be found
  have hlegs : job.legs f.grid (sharedEndpoints f (job.window t (t + max g.cycles 1))) t
      (t + max g.cycles 1) [c] [c] = .ok (some []) := rfl
  have hwaits := h.waits
  rw [Waits, hfound] at hwaits
  obtain ⟨p, hp⟩ := plan?_of_free (by omega) hwhole hlegs (by simp)
  rw [hwaits] at hp
  cases hp

/-- The factory that a gate takes alone, and finds held at its entrance, is its factory again later. -/
theorem entranceFor?_eq (h : Deferred job n t g f f') (hbegun : ∀ x ∈ f'.grid.holds, x.lock.start ≤ t)
    {u : Symbol} (hu : g.operands = [u]) (hfactory : u.isFactory = true)
    (hunbound : f.mapping.coordinate? u = none) (hreset : g.isReset = false) :
    job.entranceFor? f'.mapping.pool n u = job.entranceFor? f.mapping.pool n u := by
  have hacts : job.circuit.ActsOn n u := ⟨g, h.gate_eq, hu ▸ List.mem_cons_self⟩
  have hunclaimed (slot : PoolSlot) :
      ¬(¬job.circuit.ActsOn n u ∧ f.grid.isFree slot.entrance t (t + 1) = true) :=
    fun hclaim => hclaim.1 hacts
  rw [entranceFor?, entranceFor?]
  cases hreserve : job.reserve? f.mapping.pool n u with
  | none => rw [reserve?_eq_none h.overtaken.pool hunclaimed hreserve]
  | some reserved =>
      obtain ⟨k, p⟩ := reserved
      have hreserves := reserves_of_reserve? h.distinct hreserve
      obtain ⟨slot, hslot, hhandle, -⟩ := hreserves.free
      have hentrance := hreserves.entrance?_eq h.distinct hslot hhandle
      have hheld : f.grid.isFree slot.entrance t (t + 1) = false := by
        apply h.not_free_single hbegun
        rw [hu, hreset, resolve_single hfactory hunbound, entranceFor?, hreserve, Option.bind_some,
          hentrance]
        rfl
      -- so nobody else can have taken it
      have hkept : ∀ other ∈ f.mapping.pool.slots, other.handle = k.handle → ∀ v,
          ¬(¬job.circuit.ActsOn n v ∧ f.grid.isFree other.entrance t (t + 1) = true) := by
        rintro other hother hsame v ⟨-, hfree⟩
        obtain rfl := List.inj_on_of_nodup_map h.distinct hother hslot (hsame.trans hhandle.symm)
        rw [hheld] at hfree
        cases hfree
      obtain ⟨q, hq⟩ := reserve?_eq_some h.overtaken.pool hunclaimed hkept hreserve
      have hdistinct' := h.overtaken.pool.distinct h.distinct
      rw [hq, Option.bind_some, Option.bind_some]
      dsimp only
      rw [(reserves_of_reserve? hdistinct' hq).entrance?_same hdistinct', h.overtaken.pool.entrance?_eq,
        hreserves.entrance?_same h.distinct]

/-- Later the operands of a waiting gate are where they were. -/
theorem resolve_eq (h : Deferred job n t g f f') (hbegun : ∀ x ∈ f'.grid.holds, x.lock.start ≤ t) :
    (job.resolve n g.isReset g.operands [] [] f'.mapping).1 =
      (job.resolve n g.isReset g.operands [] [] f.mapping).1 := by
  have hcoordinate (u : Symbol) (hu : u ∈ g.operands) :
      f'.mapping.coordinate? u = f.mapping.coordinate? u :=
    h.overtaken.coordinate?_eq ⟨g, h.gate_eq, hu⟩
  by_cases hall : ∀ u ∈ g.operands, u.isFactory = true → ∃ c, f.mapping.coordinate? u = some c
  · exact resolve_congr fun u hu => ⟨hcoordinate u hu, hall u hu⟩
  · push Not at hall
    obtain ⟨u, hu, hfactory, hnone⟩ := hall
    have hunbound : f.mapping.coordinate? u = none := Option.eq_none_iff_forall_ne_some.2 hnone
    have hlength : g.operands.length ≠ 2 := by
      intro hpair
      have hbound := h.bound hpair u hu hfactory
      rw [Mapping.coordinate?, if_pos hfactory, Option.map_eq_none_iff] at hunbound
      rw [hunbound] at hbound
      cases hbound
    have hsingle : g.operands = [u] := by
      have hle := h.length_le
      have hpos := List.length_pos_of_mem hu
      obtain ⟨v, hv⟩ := List.length_eq_one_iff.1 (show g.operands.length = 1 by omega)
      rw [hv, List.mem_singleton] at hu
      rw [hv, hu]
    have hunbound' := (hcoordinate u hu).trans hunbound
    rw [hsingle]
    cases hreset : g.isReset with
    | true =>
        simp [resolve, hunbound, hunbound', hfactory]
    | false =>
        rw [resolve_single hfactory hunbound, resolve_single hfactory hunbound',
          h.entranceFor?_eq hbegun hsingle hfactory hunbound hreset]

/-- Until the next lock begins or ends the gate goes on waiting. -/
theorem waits_later (h : Deferred job n t g f f') (hprompt : job.settings.teleport.Prompt)
    (hquiet : f'.grid.Quiet t limit) (hteleports : ∀ tp ∈ f'.teleports, tp.start ≤ t) (ht : t < t')
    (hlimit : t' < limit) : job.Waits f' n t' g := by
  have hwaits := h.waits
  rw [Waits] at hwaits ⊢
  rw [h.resolve_eq hquiet.begun]
  generalize hresolve : job.resolve n g.isReset g.operands [] [] f.mapping = found at hwaits ⊢
  obtain ⟨operands, tickets, m⟩ := found
  cases operands with
  | unmapped u => exact hwaits
  | lacking => trivial
  | found cells =>
      have hlength := length_of_resolve hresolve
      have hle := h.length_le
      rw [List.length_nil, Nat.zero_add] at hlength
      exact plan?_later hprompt h.overtaken.grid hquiet hteleports ht hlimit (by omega) (by omega)
        (hlength.trans hle) hwaits

end Deferred

section Round

variable {s s' : RoutingState} {nodes : List Nat}

theorem routes_of_admitAll (h : job.admitAll nodes s = .ok (s', .ok ())) :
    ∀ r ∈ s.routes, r ∈ s'.routes := by
  induction nodes generalizing s with
  | nil =>
      simp only [admitAll, pure_eq_ok_iff, Prod.mk.injEq, and_true] at h
      exact h ▸ fun r hr => hr
  | cons n rest ih =>
      intro r hr
      obtain ⟨f, -, h⟩ | ⟨a, h⟩ := admitAll_cons h
      · exact ih h r hr
      · exact ih h r (List.mem_append_left _ hr)

/-- The gates of a round overtake one that they have no operand in common with. -/
theorem Overtaken.admitAll (h : Overtaken job n s.clock f s.fabric)
    (hdistinct : s.fabric.mapping.pool.Distinct)
    (hapart : ∀ m ∈ nodes, ∀ u, job.circuit.ActsOn m u → ¬job.circuit.ActsOn n u)
    (hoffer : job.admitAll nodes s = .ok (s', .ok ())) : Overtaken job n s.clock f s'.fabric := by
  induction nodes generalizing s with
  | nil =>
      simp only [RoutingJob.admitAll, pure_eq_ok_iff, Prod.mk.injEq, and_true] at hoffer
      exact hoffer ▸ h
  | cons m rest ih =>
      have hrest (k : Nat) (hk : k ∈ rest) := hapart k (List.mem_cons_of_mem _ hk)
      obtain ⟨_, htry, hoffer⟩ | ⟨a, hoffer⟩ := admitAll_cons hoffer
      · obtain rfl := tryRoute_waits hdistinct htry
        exact ih h hdistinct hrest hoffer
      · exact ih (s := s.enter a)
          (h.enter hdistinct a (hapart m List.mem_cons_self))
          ((a.binds hdistinct).distinct hdistinct) hrest hoffer

/-- After a round each gate that was offered admission has been admitted or deferred. -/
theorem deferred_of_admitAll (hbuilt : job.circuit.Built) (hstaged : job.circuit.Staged)
    (htracked : Tracked job s) (hcustody : Custody job s) (hnodup : nodes.Nodup)
    (hnodes : ∀ n ∈ nodes, job.Admissible s n) (hoffer : job.admitAll nodes s = .ok (s', .ok ())) :
    ∀ n ∈ nodes, (∃ r ∈ s'.routes, r.gate = n) ∨ ∃ g f, Deferred job n s.clock g f s'.fabric := by
  induction nodes generalizing s with
  | nil => simp
  | cons m rest ih =>
      obtain ⟨hfirst, hrest⟩ := List.nodup_cons.1 hnodup
      have hm := hnodes m List.mem_cons_self
      intro n hn
      obtain ⟨_, htry, hround⟩ | ⟨a, hround⟩ := admitAll_cons hoffer
      · obtain rfl := tryRoute_waits hcustody.distinct htry
        rcases List.mem_cons.1 hn with rfl | hn
        · obtain ⟨g, hg⟩ := Circuit.gate?_isSome hm.lt_size
          refine .inr ⟨g, s.fabric, hg, (hstaged n g hg).1, fun hpair u hu hfactory => ?_,
            hcustody.distinct, waits_of_tryRoute hg htry, ?_⟩
          · exact hcustody.bound_of_staged htracked hbuilt hstaged hm hg hpair hu hfactory
          · refine (Overtaken.refl job n s.clock s.fabric).admitAll hcustody.distinct ?_ hround
            intro k hk u hku hnu
            have hadmissible := hnodes k (List.mem_cons_of_mem _ hk)
            rw [hcustody.eq_of_shared htracked hbuilt hadmissible hm hku hnu] at hk
            exact hfirst hk
        · exact ih htracked hcustody hrest (fun k hk => hnodes k (List.mem_cons_of_mem _ hk)) hround n hn
      · rcases List.mem_cons.1 hn with rfl | hn
        · exact .inl ⟨a.route, routes_of_admitAll hround _ (List.mem_append_right _ (by simp)), rfl⟩
        · refine ih (htracked.enter hm a) (hcustody.enter hm a) hrest (fun k hk => ?_) hround n hn
          refine (hnodes k (List.mem_cons_of_mem _ hk)).enter ?_ a
          rintro rfl
          exact hfirst hk

end Round

end RoutingJob

end SurfaceFabric
