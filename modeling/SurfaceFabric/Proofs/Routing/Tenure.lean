import SurfaceFabric.Proofs.Circuit.Tenure
import SurfaceFabric.Proofs.Pool.Protocol
import SurfaceFabric.Proofs.Routing.Custody

/-!
Tenures of factories in a run. A symbol is bound to a factory by the gate that puts it to use and keeps it
until the reset that ends this use has ended. All gates in between have the symbol at the entrance of that
factory, and another symbol comes to be there only after the reset.
-/

namespace SurfaceFabric

/-- The cell that a route has for an operand. The locks begin with the operand cells in order, and a reset of
an unbound factory has none. -/
def Route.Seats (x : Route) (c : Circuit) (u : Symbol) (e : Cell) : Prop :=
  ∃ (g : Gate) (i : Nat), c.gate? x.gate = some g ∧ g.operands[i]? = some u ∧
    x.locks[i]?.map CellLock.cell = some e

/-- A route whose use of a symbol is over, by a reset, when another starts. -/
def Route.Yields (x : Route) (c : Circuit) (routes : List Route) (u : Symbol) (y : Route) : Prop :=
  ∃ z ∈ routes, c.Closes u x.gate z.gate ∧ z.finish ≤ y.start

theorem Route.Seats.actsOn {x : Route} {c : Circuit} {u : Symbol} {e : Cell} (h : x.Seats c u e) :
    c.ActsOn x.gate u := by
  obtain ⟨g, i, hg, hi, -⟩ := h
  exact ⟨g, hg, List.mem_of_getElem? hi⟩

theorem Route.Yields.append {x y : Route} {c : Circuit} {routes : List Route} {u : Symbol}
    (h : x.Yields c routes u y) (later : List Route) : x.Yields c (routes ++ later) u y := by
  obtain ⟨z, hz, hcloses, hle⟩ := h
  exact ⟨z, List.mem_append_left _ hz, hcloses, hle⟩

namespace RoutingJob

variable {job : RoutingJob} {pace : Pace} {slacks : List Nat}

theorem suits_of_reserve? {pool q : Pool} {n : Nat} {s : Symbol} {k : Ticket}
    (h : job.reserve? pool n s = some (k, q)) :
    ∃ i slot, pool.Suits i slot s ∧ pool.reserveSlot i slot s = (k, q) := by
  rcases Option.or_eq_some_iff.1 h with h | ⟨-, h⟩
  · obtain ⟨handle, -, h⟩ := Option.bind_eq_some_iff.1 h
    exact Pool.suits_of_reserveHandle? h
  · exact Pool.suits_of_reserve? h

theorem resolve_kept {n : Nat} {isReset : Bool} {operands : List Symbol} {cells cells' : List Cell}
    {tickets tickets' : List Ticket} {m m' : Mapping} (h : m.pool.Kept tickets)
    (hr : job.resolve n isReset operands cells tickets m = (.found cells', tickets', m')) :
    m'.pool.Kept tickets' := by
  refine resolve_keeps (P := fun tickets m => m.pool.Kept tickets) ?_ h hr
  intro tickets m s k q hkept hk
  obtain ⟨i, slot, hsuits, heq⟩ := suits_of_reserve? hk
  exact hkept.reserve hsuits heq

/-- A reset reserves nothing. It has a cell if its symbol is bound. -/
theorem resolve_reset {n : Nat} {u : Symbol} {cells : List Cell} {tickets : List Ticket} {m m' : Mapping}
    (hr : job.resolve n true [u] [] [] m = (.found cells, tickets, m')) :
    tickets = [] ∧ m' = m ∧ (cells = [] ∨ ∃ e, m.coordinate? u = some e ∧ cells = [e]) := by
  cases hcell : m.coordinate? u with
  | some e =>
      obtain ⟨rfl, rfl, rfl⟩ := by simpa [resolve, hcell] using hr
      exact ⟨rfl, rfl, .inr ⟨e, rfl, rfl⟩⟩
  | none =>
      cases hfactory : u.isFactory with
      | false => simp [resolve, hcell, hfactory] at hr
      | true =>
          obtain ⟨rfl, rfl, rfl⟩ := by simpa [resolve, hcell, hfactory] using hr
          exact ⟨rfl, rfl, .inl rfl⟩

namespace Admission

variable {f : Fabric} {n t : Nat} {u : Symbol} {e : Cell}

theorem kept (a : Admission job f n t) (h : f.mapping.pool.Kept []) : a.fabric.mapping.pool.Kept [] :=
  (resolve_kept h a.resolve_eq).commitAll

theorem lock_eq (a : Admission job f n t) {i : Nat} (hi : i < a.cells.length) :
    a.route.locks[i]?.map CellLock.cell = a.cells[i]? := by
  have hlocks : a.route.locks = a.cells.map (fun c => ⟨c, t, a.stop⟩) ++
      (((a.legs.map interior).map _).flatMap LockPlan.locks ++ a.plan.ends) := List.append_assoc ..
  rw [hlocks, List.getElem?_append_left (by simpa using hi), List.getElem?_map, Option.map_map]
  exact Option.map_id'

/-- A reset takes the pool as it is. If it has a cell, its symbol is bound to the factory there. -/
theorem reset_cases (a : Admission job f n t) (hbuilt : job.circuit.Built) (hreset : a.gate.isReset = true) :
    a.fabric.mapping.pool = f.mapping.pool ∧ ∃ w, a.gate.operands = [w] ∧
      (a.route.locks = [] ∨ ∃ e, f.mapping.pool.Holds w e ∧ a.cells = [e]) := by
  obtain ⟨w, hw, hfactory⟩ := hbuilt.reset_operands a.gate_eq hreset
  have hresolve := a.resolve_eq
  rw [hreset, hw] at hresolve
  obtain ⟨htickets, hmapping, hcells⟩ := resolve_reset hresolve
  refine ⟨?_, w, hw, ?_⟩
  · show a.mapping.pool.commitAll a.tickets = _
    rw [htickets, hmapping]
    rfl
  · obtain hnone | ⟨e, he, hcell⟩ := hcells
    · have hlegs := a.legs_eq
      rw [hnone] at hlegs
      obtain hnil : [] = a.legs := Option.some.inj (pure_eq_ok_iff.1 hlegs)
      refine .inl ?_
      show (job.planLocks n t a.stop a.cells (a.legs.map interior)).locks ++
        (job.planLocks n t a.stop a.cells (a.legs.map interior)).ends = []
      rw [hnone, ← hnil]
      rfl
    · rw [Mapping.coordinate?, if_pos hfactory] at he
      obtain ⟨slot, hbinding, rfl⟩ := Option.map_eq_some_iff.1 he
      refine .inr ⟨slot.entrance, ⟨slot, List.mem_of_find?_eq_some hbinding, ?_, rfl⟩, hcell⟩
      simpa using List.find?_some hbinding

/-- A factory operand that has a cell is bound to the factory there. -/
theorem holds_of_seats (a : Admission job f n t) (hbuilt : job.circuit.Built) (h : f.mapping.pool.Distinct)
    (hfactory : u.isFactory = true) (hseats : a.route.Seats job.circuit u e) :
    a.fabric.mapping.pool.Holds u e := by
  obtain ⟨g, i, hg, hi, he⟩ := hseats
  obtain rfl := Option.some.inj (hg.symm.trans a.gate_eq)
  cases hreset : a.gate.isReset with
  | false =>
      have hall := a.holds h hreset
      obtain ⟨hlt, hget⟩ := List.getElem?_eq_some_iff.1 hi
      have hlt' : i < a.cells.length := hall.length_eq ▸ hlt
      rw [a.lock_eq hlt', List.getElem?_eq_getElem hlt'] at he
      obtain rfl := Option.some.inj he
      have hheld := hall.get hlt hlt'
      simp only [List.get_eq_getElem, hget] at hheld
      exact hheld hfactory
  | true =>
      obtain ⟨hpool, w, hw, hlocks⟩ := a.reset_cases hbuilt hreset
      obtain ⟨rfl, rfl⟩ : i = 0 ∧ w = u := by
        rw [hw] at hi
        cases i with
        | zero => exact ⟨rfl, Option.some.inj hi⟩
        | succ i => cases hi
      rw [hpool]
      obtain hnone | ⟨e', hheld, hcells⟩ := hlocks
      · rw [hnone] at he
        cases he
      · rw [a.lock_eq (by simp [hcells]), hcells] at he
        obtain rfl := Option.some.inj he
        exact hheld

theorem exists_seats (a : Admission job f n t) (h : f.mapping.pool.Distinct)
    (hemploys : job.circuit.Employs n u) : ∃ e, a.route.Seats job.circuit u e := by
  obtain ⟨g, hg, hreset, hu⟩ := hemploys
  obtain rfl := Option.some.inj (hg.symm.trans a.gate_eq)
  obtain ⟨i, hi⟩ := List.mem_iff_getElem?.1 hu
  obtain ⟨hlt, -⟩ := List.getElem?_eq_some_iff.1 hi
  have hlt' : i < a.cells.length := (a.holds h hreset).length_eq ▸ hlt
  refine ⟨a.cells[i], a.gate, i, a.gate_eq, hi, ?_⟩
  rw [a.lock_eq hlt', List.getElem?_eq_getElem hlt']

/-- What is newly bound is bound to an operand that held nothing, at its cell. -/
theorem holds_cases (a : Admission job f n t) (hbuilt : job.circuit.Built) (h : f.mapping.pool.Kept [])
    (hheld : a.fabric.mapping.pool.Holds u e) : f.mapping.pool.Holds u e ∨
      job.circuit.Employs n u ∧ a.route.Seats job.circuit u e ∧ ∀ e', ¬f.mapping.pool.Holds u e' := by
  have hbinds := a.binds h.distinct
  by_cases hold : ∃ e', f.mapping.pool.Holds u e'
  · obtain ⟨e', he'⟩ := hold
    rw [(a.kept h).eq_of_holds hheld (hbinds.holds he')]
    exact .inl he'
  · obtain hsame | ⟨_, -, hu, -⟩ := hbinds.holds_cases hheld
    · exact .inl hsame
    · have hreset : a.gate.isReset = false := by
        by_contra hreset
        rw [(a.reset_cases hbuilt (Bool.eq_true_of_not_eq_false hreset)).1] at hheld
        exact hold ⟨e, hheld⟩
      have hemploys : job.circuit.Employs n u := ⟨a.gate, a.gate_eq, hreset, hu⟩
      have hfactory := (a.kept h).isFactory_of_holds hheld
      obtain ⟨e', he'⟩ := a.exists_seats h.distinct hemploys
      obtain rfl := (a.kept h).eq_of_holds hheld (a.holds_of_seats hbuilt h.distinct hfactory he')
      exact .inr ⟨hemploys, he', fun e'' he'' => hold ⟨e'', he''⟩⟩

end Admission

/-- A gate that ends takes the factory from the symbol that it resets, and from no other. -/
theorem complete_holds (hbuilt : job.circuit.Built) {f : Fabric} (h : f.mapping.pool.Kept []) (z : Route) :
    (job.complete f z).mapping.pool.Kept [] ∧ (job.complete f z).mapping.pool.sites = f.mapping.pool.sites ∧
      ∀ u e, (job.complete f z).mapping.pool.Holds u e ↔
        f.mapping.pool.Holds u e ∧ ¬job.circuit.Resets z.gate u := by
  obtain ⟨hkind, hnone⟩ | ⟨g, w, hgate, hreset, hoperand, hresets⟩ := hbuilt.resets_cases z.gate
  · have hpool : (job.complete f z).mapping.pool = f.mapping.pool := by
      rw [complete]
      dsimp only
      split
      · rfl
      · next g hgate => rw [hkind g hgate, if_neg Bool.false_ne_true]
    rw [hpool]
    exact ⟨h, rfl, fun u e => (and_iff_left (hnone u)).symm⟩
  · have hpool : (job.complete f z).mapping.pool = f.mapping.pool.free w z.finish := by
      simp [complete, hgate, hreset, hoperand, Fabric.withPool]
    rw [hpool]
    refine ⟨h.free w z.finish, Pool.sites_free .., fun u e => ?_⟩
    rw [hresets]
    exact h.holds_free

/-- Who holds which factory, and who held it before. A symbol that has a place holds the factory there until
the reset that ends its use is finished; what holds a factory was put to use by a gate at its entrance. -/
structure Tenancy (c : Circuit) (sites : List (String × Cell)) (pool : Pool) (routes : List Route)
    (finished : List Nat) : Prop where
  kept : pool.Kept []
  sites_eq : pool.sites = sites
  seated : ∀ x ∈ routes, ∀ u, c.Employs x.gate u → u.isFactory = true →
    ∃ template e, u.template? = some template ∧ (template, e) ∈ sites ∧ x.Seats c u e
  current : ∀ x ∈ routes, ∀ u e, u.isFactory = true → x.Seats c u e →
    pool.Holds u e ∧ c.Unbroken finished u x.gate ∨ ∃ z ∈ finished, c.Closes u x.gate z
  opened : ∀ u e, pool.Holds u e →
    ∃ b ∈ routes, b.Seats c u e ∧ c.Begins u b.gate ∧ c.Unbroken finished u b.gate
  origin : ∀ x ∈ routes, ∀ u e, c.Employs x.gate u → u.isFactory = true → x.Seats c u e →
    ∃ b ∈ routes, b.Seats c u e ∧ c.Opens u b.gate x.gate
  succession : ∀ x ∈ routes, ∀ y ∈ routes, ∀ u v e, u.isFactory = true → v.isFactory = true → u ≠ v →
    x.Seats c u e → y.Seats c v e → x.Yields c routes u y ∨ y.Yields c routes v x

namespace Tenancy

variable {c : Circuit} {sites : List (String × Cell)} {pool : Pool} {routes : List Route}
  {finished : List Nat} {n : Nat} {u v : Symbol} {e : Cell}

theorem start (hdistinct : pool.Distinct) (hfree : ∀ slot ∈ pool.slots, slot.occupancy = .free) :
    Tenancy c pool.sites pool [] [] := by
  refine ⟨.of_free hdistinct hfree, rfl, by simp, by simp, ?_, by simp, by simp⟩
  rintro u e ⟨slot, hslot, hbound, -⟩
  rw [hfree slot hslot] at hbound
  cases hbound

/-- The end of a gate. If it is a reset, it ends the uses of its symbol that are not over. -/
theorem complete {pool' : Pool} {z : Route} (h : Tenancy c sites pool routes finished)
    (hpacing : c.Pacing (routes.map Route.gate) finished) (hz : z ∈ routes) (hrunning : z.gate ∉ finished)
    (hkept : pool'.Kept []) (hsites : pool'.sites = pool.sites)
    (hholds : ∀ u e, pool'.Holds u e ↔ pool.Holds u e ∧ ¬c.Resets z.gate u) :
    Tenancy c sites pool' routes (finished ++ [z.gate]) := by
  refine ⟨hkept, hsites.trans h.sites_eq, h.seated, ?_, ?_, h.origin, h.succession⟩
  · intro x hx u e hfactory hseats
    obtain ⟨hheld, hcurrent⟩ | ⟨r, hr, hcloses⟩ := h.current x hx u e hfactory hseats
    · by_cases hreset : c.Resets z.gate u
      · refine .inr ⟨z.gate, List.mem_append_right _ (List.mem_singleton_self _), ?_⟩
        exact hpacing.closes (List.mem_map_of_mem hz) hrunning hreset (List.mem_map_of_mem hx)
          hseats.actsOn hcurrent
      · exact .inl ⟨(hholds u e).2 ⟨hheld, hreset⟩, hcurrent.finish hreset⟩
    · exact .inr ⟨r, List.mem_append_left _ hr, hcloses⟩
  · intro u e hheld
    obtain ⟨hheld, hreset⟩ := (hholds u e).1 hheld
    obtain ⟨b, hb, hseats, hbegins, hcurrent⟩ := h.opened u e hheld
    exact ⟨b, hb, hseats, hbegins, hcurrent.finish hreset⟩

theorem completeAll {f : Fabric} {ended : List Route} (hbuilt : job.circuit.Built)
    (h : Tenancy job.circuit sites f.mapping.pool routes finished)
    (hpacing : job.circuit.Pacing (routes.map Route.gate) finished) (hended : ∀ z ∈ ended, z ∈ routes)
    (hnodup : (finished ++ ended.map Route.gate).Nodup) :
    Tenancy job.circuit sites (ended.foldl job.complete f).mapping.pool routes
      (finished ++ ended.map Route.gate) := by
  induction ended generalizing f finished with
  | nil => simpa using h
  | cons z ended ih =>
      have hz := hended z List.mem_cons_self
      have hrunning : z.gate ∉ finished := fun hmem =>
        List.disjoint_of_nodup_append hnodup hmem List.mem_cons_self
      obtain ⟨hkept, hsites, hholds⟩ := complete_holds hbuilt h.kept z
      rw [List.map_cons, List.append_cons] at hnodup ⊢
      exact ih (h.complete hpacing hz hrunning hkept hsites hholds)
        (hpacing.finish (List.mem_map_of_mem hz)) (fun r hr => hended r (List.mem_cons_of_mem _ hr)) hnodup

/-- A gate on a symbol that holds nothing puts it to use. -/
theorem begins (h : Tenancy c sites pool routes finished)
    (hpacing : c.Pacing (routes.map Route.gate) finished) (hnew : n ∉ routes.map Route.gate)
    (hsettled : c.Settled finished n) (hemploys : c.Employs n u) (hfactory : u.isFactory = true)
    (hnone : ∀ e, ¬pool.Holds u e) : c.Begins u n := by
  refine (hpacing.inUse_cases hnew hsettled hemploys).resolve_left ?_
  rintro ⟨_, hbegun, hbegins, hunbroken⟩
  obtain ⟨b, hb, rfl⟩ := List.mem_map.1 hbegun
  obtain ⟨_, e, -, -, hseats⟩ := h.seated b hb u hbegins.employs hfactory
  obtain ⟨hheld, -⟩ | ⟨z, hz, hcloses⟩ := h.current b hb u e hfactory hseats
  · exact hnone e hheld
  · exact absurd (hunbroken z hz hcloses.resets) (Nat.not_lt.2 hcloses.le)

section Enter

variable {f : Fabric} {t : Nat} (hbuilt : job.circuit.Built)
  (h : Tenancy job.circuit sites f.mapping.pool routes finished)
  (hpacing : job.circuit.Pacing (routes.map Route.gate) finished) (hports : (sites.map Prod.snd).Nodup)
  (a : Admission job f n t) (hnew : n ∉ routes.map Route.gate)
  (hsettled : job.circuit.Settled finished n)
  (hended : ∀ z ∈ finished, ∃ x ∈ routes, x.gate = z ∧ x.finish ≤ t)

include hbuilt h hpacing hnew hsettled in
theorem opened_enter (hheld : a.fabric.mapping.pool.Holds u e) :
    ∃ b ∈ routes ++ [a.route], b.Seats job.circuit u e ∧ job.circuit.Begins u b.gate ∧
      job.circuit.Unbroken finished u b.gate := by
  obtain hold | ⟨hemploys, hseats, hnone⟩ := a.holds_cases hbuilt h.kept hheld
  · obtain ⟨b, hb, hrest⟩ := h.opened u e hold
    exact ⟨b, List.mem_append_left _ hb, hrest⟩
  · refine ⟨a.route, List.mem_append_right _ (List.mem_singleton_self _), hseats, ?_, ?_⟩
    · exact h.begins hpacing hnew hsettled hemploys ((a.kept h.kept).isFactory_of_holds hheld) hnone
    · exact hpacing.unbroken hnew hemploys.actsOn

include h hports in
theorem eq_of_holds_enter (hu : a.fabric.mapping.pool.Holds u e) (hv : a.fabric.mapping.pool.Holds v e) :
    u = v := by
  apply Pool.eq_of_holds_entrance ?_ hu hv
  rwa [(a.binds h.kept.distinct).sites_eq, h.sites_eq]

include hbuilt h hports hended in
/-- Where the new gate finds another symbol's place, that symbol's use is over. -/
theorem yields_enter {x : Route} (hx : x ∈ routes) (hu : u.isFactory = true) (hv : v.isFactory = true)
    (hne : u ≠ v) (hxu : x.Seats job.circuit u e) (hnv : a.route.Seats job.circuit v e) :
    x.Yields job.circuit (routes ++ [a.route]) u a.route := by
  obtain ⟨hheld, -⟩ | ⟨z, hz, hcloses⟩ := h.current x hx u e hu hxu
  · have hold := (a.binds h.kept.distinct).holds hheld
    have hnew := a.holds_of_seats hbuilt h.kept.distinct hv hnv
    exact absurd (h.eq_of_holds_enter hports a hold hnew) hne
  · obtain ⟨r, hr, rfl, hle⟩ := hended z hz
    exact ⟨r, List.mem_append_left _ hr, hcloses, hle⟩

include hbuilt h hpacing hports hnew hsettled hended in
theorem enter : Tenancy job.circuit sites a.fabric.mapping.pool (routes ++ [a.route]) finished := by
  have hbinds := a.binds h.kept.distinct
  have hkept := a.kept h.kept
  have hsites : a.fabric.mapping.pool.sites = sites := hbinds.sites_eq.trans h.sites_eq
  have hheld {u : Symbol} {e : Cell} (hu : u.isFactory = true) (hs : a.route.Seats job.circuit u e) :
      a.fabric.mapping.pool.Holds u e := a.holds_of_seats hbuilt h.kept.distinct hu hs
  refine ⟨hkept, hsites, ?_, ?_, fun u e => h.opened_enter hbuilt hpacing a hnew hsettled, ?_, ?_⟩
  · intro x hx u hemploys hu
    rcases List.mem_append.1 hx with hx | hx
    · exact h.seated x hx u hemploys hu
    · obtain rfl := List.mem_singleton.1 hx
      obtain ⟨e, he⟩ := a.exists_seats h.kept.distinct hemploys
      obtain ⟨template, htemplate, hsite⟩ := hkept.site_of_holds (hheld hu he)
      exact ⟨template, e, htemplate, hsites ▸ hsite, he⟩
  · intro x hx u e hu hseats
    rcases List.mem_append.1 hx with hx | hx
    · refine (h.current x hx u e hu hseats).imp_left ?_
      exact fun ⟨hheld, hunbroken⟩ => ⟨hbinds.holds hheld, hunbroken⟩
    · obtain rfl := List.mem_singleton.1 hx
      exact .inl ⟨hheld hu hseats, hpacing.unbroken hnew hseats.actsOn⟩
  · intro x hx u e hemploys hu hseats
    rcases List.mem_append.1 hx with hx | hx
    · obtain ⟨b, hb, hrest⟩ := h.origin x hx u e hemploys hu hseats
      exact ⟨b, List.mem_append_left _ hb, hrest⟩
    · obtain rfl := List.mem_singleton.1 hx
      obtain ⟨b, hb, hbseats, hbegins, hunbroken⟩ :=
        h.opened_enter hbuilt hpacing a hnew hsettled (hheld hu hseats)
      refine ⟨b, hb, hbseats, ?_⟩
      rcases List.mem_append.1 hb with hold | hsame
      · exact hpacing.opens hnew hsettled hemploys (List.mem_map_of_mem hold) hbegins hunbroken
      · rw [List.mem_singleton.1 hsame] at hbegins ⊢
        exact hbegins.opens
  · intro x hx y hy u v e hu hv hne hxu hyv
    rcases List.mem_append.1 hx with hx | hx
    · rcases List.mem_append.1 hy with hy | hy
      · exact (h.succession x hx y hy u v e hu hv hne hxu hyv).imp (·.append _) (·.append _)
      · obtain rfl := List.mem_singleton.1 hy
        exact .inl (h.yields_enter hbuilt hports a hended hx hu hv hne hxu hyv)
    · obtain rfl := List.mem_singleton.1 hx
      rcases List.mem_append.1 hy with hy | hy
      · exact .inr (h.yields_enter hbuilt hports a hended hy hv hu hne.symm hyv hxu)
      · obtain rfl := List.mem_singleton.1 hy
        exact absurd (h.eq_of_holds_enter hports a (hheld hu hxu) (hheld hv hyv)) hne

end Enter

end Tenancy

theorem Custody.pacing {s : RoutingState} (h : Custody job s) (htracked : Tracked job s)
    (hbuilt : job.circuit.Built) : job.circuit.Pacing (s.routes.map Route.gate) s.finished := by
  constructor
  · intro n hn
    obtain ⟨r, hr, rfl⟩ := htracked.routed hn
    exact List.mem_map_of_mem hr
  · intro n hn m hlt u hm hu
    obtain ⟨r, hr, rfl⟩ := List.mem_map.1 hn
    exact h.finished_of_shared htracked hbuilt (h.settled r hr) hlt hm hu

abbrev TenancyAt (job : RoutingJob) (sites : List (String × Cell)) (s : RoutingState) : Prop :=
  Tenancy job.circuit sites s.fabric.mapping.pool s.routes s.finished

theorem Tenancy.step {sites : List (String × Cell)} {s s' : RoutingState} (hbuilt : job.circuit.Built)
    (hports : (sites.map Prod.snd).Nodup) (h : job.TenancyAt sites s) (hcustody : Custody job s)
    (htracked : Tracked job s) (hstep : Step job pace slacks s s') : job.TenancyAt sites s' := by
  have hpacing := hcustody.pacing htracked hbuilt
  cases hstep with
  | complete =>
      refine h.completeAll hbuilt hpacing ?_ ?_
      · exact fun z hz => htracked.running_routed z (mem_due.1 hz).1
      · have hnodup := htracked.complete.split.nodup_iff.2 htracked.nodup
        exact hnodup.of_append_left
  | wait _ htry =>
      rw [tryRoute_waits hcustody.distinct htry]
      exact h
  | enter hn a =>
      refine h.enter hbuilt hpacing hports a ?_ ?_ htracked.finished_ended
      · intro hmem
        obtain ⟨r, hr, heq⟩ := List.mem_map.1 hmem
        exact hn.not_routed r hr heq
      · intro m hlt u hm hu
        exact hcustody.finished_of_shared htracked hbuilt hn.dependencies_finished hlt hm hu
  | advance => exact h

theorem Tenancy.reaches {sites : List (String × Cell)} {s s' : RoutingState} (hbuilt : job.circuit.Built)
    (hports : (sites.map Prod.snd).Nodup) (h : job.TenancyAt sites s) (hcustody : Custody job s)
    (htracked : Tracked job s) (hreach : Reaches job pace slacks s s') : job.TenancyAt sites s' := by
  induction hreach with
  | refl => exact h
  | tail hreach hstep ih =>
      exact ih.step hbuilt hports (hcustody.reaches htracked hbuilt hreach) (htracked.reaches hreach) hstep

end RoutingJob

namespace Routing

/-- A symbol has the factory of an entrance at a tick: a gate that put it to use there has started, and the
reset that ends this use has not ended. -/
def Occupied (r : Routing) (c : Circuit) (u : Symbol) (e : Cell) (t : Nat) : Prop :=
  ∃ b ∈ r.routes, b.Seats c u e ∧ c.Begins u b.gate ∧ b.start ≤ t ∧
    ∀ z ∈ r.routes, c.Closes u b.gate z.gate → t < z.finish

/-- A routing in which every factory of a pool serves one symbol at a time. -/
structure SoleHolders (r : Routing) (c : Circuit) (pool : Pool) : Prop where
  seated : ∀ x ∈ r.routes, ∀ u, c.Employs x.gate u → u.isFactory = true →
    ∃ slot ∈ pool.slots, u.template? = some slot.template ∧ x.Seats c u slot.entrance
  opened : ∀ x ∈ r.routes, ∀ u e, c.Employs x.gate u → u.isFactory = true → x.Seats c u e →
    ∃ b ∈ r.routes, b.Seats c u e ∧ c.Opens u b.gate x.gate
  succession : ∀ x ∈ r.routes, ∀ y ∈ r.routes, ∀ u v e, c.Employs x.gate u → u.isFactory = true →
    v.isFactory = true → u ≠ v → x.Seats c u e → y.Seats c v e →
      (∃ z ∈ r.routes, c.Resets z.gate u ∧ c.Follows z.gate x.gate ∧ z.finish ≤ y.start) ∨
        ∃ z ∈ r.routes, ∃ b ∈ r.routes, c.Closes v y.gate z.gate ∧ c.Opens u b.gate x.gate ∧
          z.finish ≤ b.start
  exclusive : ∀ t u v e, u.isFactory = true → v.isFactory = true → r.Occupied c u e t →
    r.Occupied c v e t → u = v

end Routing

theorem RoutingJob.Tenancy.soleHolders {c : Circuit} {p pool : Pool} {r : Routing} {finished : List Nat}
    (h : Tenancy c p.sites pool r.routes finished) (hbuilt : c.Built) : r.SoleHolders c p where
  seated x hx u hemploys hu := by
    obtain ⟨template, e, htemplate, hsite, hseats⟩ := h.seated x hx u hemploys hu
    obtain ⟨slot, hslot, heq⟩ := List.mem_map.1 hsite
    obtain ⟨rfl, rfl⟩ := Prod.mk.inj heq
    exact ⟨slot, hslot, htemplate, hseats⟩
  opened := h.origin
  succession x hx y hy u v e hemploys hu hv hne hxu hyv := by
    -- the gate that opened the use of the first symbol has it at the same place
    obtain ⟨b, hb, hbu, hopens⟩ := h.origin x hx u e hemploys hu hxu
    obtain ⟨z, hz, hcloses, hle⟩ | ⟨z, hz, hcloses, hle⟩ := h.succession b hb y hy u v e hu hv hne hbu hyv
    · have hcloses := hopens.closes hcloses
      refine .inl ⟨z, hz, hcloses.resets, ?_, hle⟩
      exact hbuilt.follows_of_shared (hcloses.lt hemploys) hemploys.actsOn hcloses.resets.actsOn
    · exact .inr ⟨z, hz, b, hb, hcloses, hopens, hle⟩
  exclusive t u v e hu hv hold hold' := by
    obtain ⟨b, hb, hseats, -, hstart, hlast⟩ := hold
    obtain ⟨b', hb', hseats', -, hstart', hlast'⟩ := hold'
    by_contra hne
    obtain ⟨z, hz, hcloses, hle⟩ | ⟨z, hz, hcloses, hle⟩ :=
      h.succession b hb b' hb' u v e hu hv hne hseats hseats'
    · have := hlast z hz hcloses
      omega
    · have := hlast' z hz hcloses
      omega

/-- While a circuit runs, no factory serves two symbols at a time. Where two have had the same one, the reset
that ends the use of one of them ended before the use of the other began. -/
theorem run_soleHolders {c : Circuit} {l : Layout} {m : Mapping} {schedule : Schedule}
    {settings : RoutingSettings} {job : RoutingJob} {f f' : Fabric} {r : Routing} (hc : c.Built)
    (hdistinct : m.pool.Distinct) (hports : (m.pool.slots.map PoolSlot.entrance).Nodup)
    (hfree : ∀ slot ∈ m.pool.slots, slot.occupancy = .free)
    (hstart : RoutingJob.start c l m schedule settings = .ok (job, f))
    (hrun : job.run f = .ok (f', .ok r)) : r.SoleHolders c m.pool := by
  obtain ⟨grid, -, rfl, rfl⟩ := RoutingJob.start_eq_ok_iff.1 hstart
  obtain ⟨slacks, s, hreach, -, -, rfl⟩ := RoutingJob.reaches_of_run hrun
  have hports : (m.pool.sites.map Prod.snd).Nodup := by rwa [Pool.sites, List.map_map]
  have hcustody : RoutingJob.Custody ⟨c, schedule, settings, grid.switches settings.teleport⟩
      ⟨0, 0, ⟨grid, m, []⟩, [], [], []⟩ := ⟨hdistinct, by simp, by simp⟩
  have htenancy := RoutingJob.Tenancy.reaches hc hports (.start hdistinct hfree) hcustody
    (RoutingJob.tracked_start _ _) hreach
  exact htenancy.soleHolders (r := RoutingJob.routingOf s) hc

namespace Relay

/-- Two factories for three symbols: one gate needs both at once, and the first symbol is used again after
its reset, at the other factory. -/
def circuit : Circuit :=
  (((((Circuit.empty.append (.production (.factory "T" 0) 3)).append
    (.joint "inject" [.register "a", .factory "T" 0] 2)).append (.resetOf (.factory "T" 0))).append
    (.joint "fuse" [.factory "T" 1, .factory "T" 2] 2)).append (.resetOf (.factory "T" 1))).append
    (.production (.factory "T" 0) 3)

def layout : Layout :=
  .addUnit (.addUnit (.ofTiling ⟨2, 4, [.isolated 0 (.taken (.factory 0) ⟨0, 0, 1, 1⟩),
    .isolated 1 (.taken .register ⟨0, 1, 1, 3⟩), .isolated 2 (.taken (.factory 1) ⟨0, 3, 1, 4⟩),
    .isolated 3 (.taken .route ⟨1, 0, 2, 4⟩)], 4⟩ 0) ⟨"T", 1, 1, 3⟩ 0) ⟨"T", 1, 1, 3⟩ 2

def mapping : Mapping := ⟨.empty, [(.register "a", ⟨0, 1⟩)], Pool.ofLayout layout⟩

def schedule : Schedule where
  cycles := 7
  channels := 2
  layers := [[0, 3], [], [4], [1], [], [2], [5]]
  starts := [0, 3, 5, 0, 2, 6]
  ends := [3, 5, 6, 2, 3, 7]
  bindings := [some 0, none, none, some 1, none, some 1]

theorem built_circuit : circuit.Built :=
  (((((Circuit.Built.empty.extend (by decide)).extend (by decide)).extend (by decide)).extend (by decide)).extend
    (by decide)).extend (by decide)

def times (r : Routing) : List (Nat × Nat × Nat) := r.routes.map fun x => (x.gate, x.start, x.finish)

theorem exists_run_eq : ∃ job f f' r, RoutingJob.start circuit layout mapping schedule {} = .ok (job, f) ∧
    job.run f = .ok (f', .ok r) ∧
      times r = [(0, 0, 3), (1, 3, 5), (2, 5, 6), (3, 6, 8), (4, 8, 9), (5, 9, 12)] := by
  have h : (do
      let (job, f) ← RoutingJob.start circuit layout mapping schedule {}
      return (← job.run f).2.map times) =
        .ok (.ok [(0, 0, 3), (1, 3, 5), (2, 5, 6), (3, 6, 8), (4, 8, 9), (5, 9, 12)]) := by
    decide +kernel
  obtain ⟨⟨job, f⟩, hstart, h⟩ := bind_eq_ok_iff.1 h
  obtain ⟨⟨f', result⟩, hrun, h⟩ := bind_eq_ok_iff.1 h
  cases result with
  | error e => cases h
  | ok r => exact ⟨job, f, f', r, hstart, hrun, Except.ok.inj (pure_eq_ok_iff.1 h)⟩

end Relay

theorem relay_soleHolders : Relay.circuit.Built ∧ Relay.mapping.pool.Distinct ∧
    (Relay.mapping.pool.slots.map PoolSlot.entrance).Nodup ∧
    (∀ slot ∈ Relay.mapping.pool.slots, slot.occupancy = .free) ∧ ∃ job f f' r,
      RoutingJob.start Relay.circuit Relay.layout Relay.mapping Relay.schedule {} = .ok (job, f) ∧
        job.run f = .ok (f', .ok r) ∧
        Relay.times r = [(0, 0, 3), (1, 3, 5), (2, 5, 6), (3, 6, 8), (4, 8, 9), (5, 9, 12)] ∧
        r.SoleHolders Relay.circuit Relay.mapping.pool := by
  have hdistinct : Relay.mapping.pool.Distinct := by decide +kernel
  have hports : (Relay.mapping.pool.slots.map PoolSlot.entrance).Nodup := by decide +kernel
  have hfree : ∀ slot ∈ Relay.mapping.pool.slots, slot.occupancy = .free := by decide +kernel
  obtain ⟨job, f, f', r, hstart, hrun, htimes⟩ := Relay.exists_run_eq
  exact ⟨Relay.built_circuit, hdistinct, hports, hfree, job, f, f', r, hstart, hrun, htimes,
    run_soleHolders Relay.built_circuit hdistinct hports hfree hstart hrun⟩

end SurfaceFabric
