import SurfaceFabric.Proofs.Pool.Leak
import SurfaceFabric.Proofs.Routing.FastForward
import SurfaceFabric.Proofs.Routing.Seating
import SurfaceFabric.Proofs.Routing.Vacant

/-!
Gates that wait for good. A gate that is not admitted on a vacant grid is not admitted at any later tick while
nothing else is: a factory that it could reserve then it could reserve now. Reservations that are lost on the
way do not change this. The gate loses one itself and is short of it ever after, or it comes to the same cells
again.
-/

namespace SurfaceFabric

theorem Mapping.sameSeats_of_setsAside {claim : Nat → Symbol → Prop} {q : Pool} (m : Mapping)
    (h : Pool.SetsAside claim m.pool q) : m.SameSeats { m with pool := q } :=
  ⟨rfl, h.binding?_eq, h.entrance?_eq⟩

namespace RoutingJob

variable {job : RoutingJob} {n t : Nat} {f f' : Fabric} {g : Gate}

theorem reserve?_eq_choose? (job : RoutingJob) (pool : Pool) (n : Nat) (s : Symbol) :
    job.reserve? pool n s = pool.reserveBy (Pool.choose? (job.schedule.binding? n)) s := by
  rw [reserve?_eq]
  unfold Pool.reserveBy Pool.choose?
  cases s.template? with
  | none => cases job.schedule.binding? n <;> rfl
  | some template =>
      by_cases hheld : pool.isHeld s = true
      · cases job.schedule.binding? n <;> simp [hheld]
      · cases hwanted : job.schedule.binding? n with
        | none => simp [hheld]
        | some handle =>
            simp only [Option.bind_some, hheld, Bool.false_eq_true, if_false]
            cases Pool.offered? handle template pool.slots <;> rfl

/-- A request is met if the symbol holds nothing yet and some slot of its template is offered. -/
theorem reserve?_eq_some_iff {pool q : Pool} {s : Symbol} {k : Ticket} :
    job.reserve? pool n s = some (k, q) ↔ ∃ template i slot, s.template? = some template ∧
      pool.isHeld s = false ∧ Pool.choose? (job.schedule.binding? n) template pool.slots = some (i, slot) ∧
      pool.reserveSlot i slot s = (k, q) := by
  rw [reserve?_eq_choose?, Pool.reserveBy, Option.bind_eq_some_iff]
  constructor
  · rintro ⟨template, htemplate, h⟩
    split at h
    · cases h
    · next hheld =>
        obtain ⟨⟨i, slot⟩, hchoose, h⟩ := Option.map_eq_some_iff.1 h
        exact ⟨template, i, slot, htemplate, by simpa using hheld, hchoose, h⟩
  · rintro ⟨template, i, slot, htemplate, hheld, hchoose, h⟩
    refine ⟨template, htemplate, ?_⟩
    rw [hheld, hchoose]
    exact congrArg some h

/-- A request that is not met: the symbol is no factory's or holds one, or nothing is offered to it. -/
theorem reserve?_eq_none_iff {pool : Pool} {s : Symbol} :
    job.reserve? pool n s = none ↔ ∀ template, s.template? = some template →
      pool.isHeld s = true ∨ Pool.choose? (job.schedule.binding? n) template pool.slots = none := by
  rw [reserve?_eq_choose?, Pool.reserveBy, Option.bind_eq_none_iff]
  refine forall_congr' fun template => forall_congr' fun _ => ?_
  split
  · next hheld => simp [hheld]
  · next hheld => simp [hheld]

/-- What is reserved now could be reserved before, and if that was the first of its handle it is the same. -/
theorem reserve?_earlier {p p' q : Pool} {s : Symbol} {k : Ticket} (hleaks : p.Leaks p')
    (h : job.reserve? p' n s = some (k, q)) : ∃ i slot, p.Suits i slot s ∧
      job.reserve? p n s = some (p.reserveSlot i slot s) ∧
      (p.IsPrimary i → p'.Suits i slot s ∧ p'.reserveSlot i slot s = (k, q)) := by
  obtain ⟨template, j, slot', htemplate, hheld', hchoose', hq⟩ := reserve?_eq_some_iff.1 h
  have hheld : p.isHeld s = false := by
    by_contra hheld
    rw [Bool.not_eq_false] at hheld
    rw [hleaks.isHeld hheld] at hheld'
    cases hheld'
  cases hchoose : Pool.choose? (job.schedule.binding? n) template p.slots with
  | none =>
      rw [hleaks.choose?_eq_none hchoose] at hchoose'
      cases hchoose'
  | some chosen =>
      obtain ⟨i, slot⟩ := chosen
      obtain ⟨hget, hoffered⟩ := Pool.choose?_isOffered hchoose
      have htemplate' : s.template? = some slot.template := by
        rw [htemplate, beq_iff_eq.1 (Bool.and_eq_true_iff.1 hoffered).1]
      have hfree := Pool.free_of_isOffered hoffered
      refine ⟨i, slot, ⟨hget, hfree, htemplate', hheld⟩,
        reserve?_eq_some_iff.2 ⟨template, i, slot, htemplate, hheld, hchoose, rfl⟩, fun hprimary => ?_⟩
      have hget' := hleaks.getElem?_eq hget hprimary
      rw [hleaks.choose?_eq_some hchoose hget'] at hchoose'
      cases hchoose'
      exact ⟨⟨hget', hfree, htemplate', hheld'⟩, hq⟩

section Lookup

variable {isReset : Bool} {operands : List Symbol} {cells cells' : List Cell} {tickets tickets' : List Ticket}
  {m m' : Mapping} {found : Operands}

theorem setsAside_of_resolve (hr : job.resolve n isReset operands cells tickets m = (found, tickets', m')) :
    m' = { m with pool := m'.pool } ∧ m.pool.SetsAside (fun _ _ => True) m'.pool := by
  refine resolve_keeps (P := fun _ m' => m' = { m with pool := m'.pool } ∧
    m.pool.SetsAside (fun _ _ => True) m'.pool) ?_ ⟨rfl, .refl _ _⟩ hr
  rintro tickets m' s k q ⟨hm, haside⟩ hk
  obtain ⟨i, slot, hsuits, hq⟩ := suits_of_reserve? hk
  obtain ⟨-, rfl⟩ := Prod.mk.inj hq
  refine ⟨?_, haside.trans (hsuits.setsAside.mono fun _ _ _ => trivial)⟩
  rw [hm]

theorem drawn_of_resolve (hr : job.resolve n isReset operands cells [] m = (found, tickets', m')) :
    m.pool.Drawn tickets' m'.pool := by
  refine resolve_keeps (P := fun tickets m' => m.pool.Drawn tickets m'.pool) ?_ (.refl _) hr
  intro tickets m' s k q hdrawn hk
  obtain ⟨i, slot, hsuits, hq⟩ := suits_of_reserve? hk
  exact hdrawn.reserve hsuits hq

/-- Operands are looked for once more, with some slots lost since. If what was reserved the first time and is
not first of its handle is among these, then the same cells are found or a factory is lacking. -/
theorem resolve_later {p : Pool} (hleaks : m.pool.Leaks p)
    (h : job.resolve n isReset operands cells tickets m = (found, tickets', m'))
    (hlost : ∀ i a s, m.pool.slots[i]? = some a → a.occupancy = .free → ¬m.pool.IsPrimary i →
      m'.pool.slots[i]? = some { a with occupancy := .reserved s } → p.isHeld s = true)
    (again : List Ticket) : (job.resolve n isReset operands cells again { m with pool := p }).1 = found ∨
      (job.resolve n isReset operands cells again { m with pool := p }).1 = .lacking := by
  induction operands generalizing cells tickets again m p with
  | nil =>
      obtain ⟨rfl, -, -⟩ := by simpa [resolve] using h
      exact .inl rfl
  | cons s rest ih =>
      have hseat : ({ m with pool := p } : Mapping).coordinate? s = m.coordinate? s :=
        (m.sameSeats_of_setsAside hleaks).coordinate?_eq s
      cases hs : m.coordinate? s with
      | some c =>
          rw [resolve_seated hs] at h
          rw [resolve_seated (hseat.trans hs)]
          exact ih hleaks h hlost again
      | none =>
          have hs' := hseat.trans hs
          by_cases hfactory : s.isFactory = true
          · cases isReset with
            | true =>
                rw [resolve_unbound hs hfactory] at h
                rw [resolve_unbound hs' hfactory]
                exact ih hleaks h hlost again
            | false =>
                cases hk' : job.reserve? p n s with
                | none =>
                    rw [resolve_lacking hs' hfactory hk']
                    exact .inr rfl
                | some reserved' =>
                    obtain ⟨k', q'⟩ := reserved'
                    obtain ⟨i, slot, hsuits, hk, hsame⟩ := reserve?_earlier hleaks hk'
                    obtain ⟨c, hc, heq⟩ := resolve_reserved hs hfactory hk rest cells tickets
                    obtain ⟨c', hc', heq'⟩ := resolve_reserved hs' hfactory hk' rest cells again
                    rw [heq] at h
                    have hset := List.getElem?_set_self (a := { slot with occupancy := .reserved s })
                      (List.getElem?_eq_some_iff.1 hsuits.get).1
                    -- a slot that is not first of its handle was lost with the first attempt
                    have hprimary : m.pool.IsPrimary i := by
                      by_contra hnot
                      have hslot := ((setsAside_of_resolve h).2.slot i _ hset).resolve_right
                        fun hfree => by cases hfree.1
                      have hheld := hlost i slot s hsuits.get hsuits.free hnot hslot
                      rw [(isHeld_of_reserve? hk').2.1] at hheld
                      cases hheld
                    obtain ⟨hsuits', hq'⟩ := hsame hprimary
                    obtain ⟨rfl, rfl⟩ := Prod.mk.inj hq'
                    have hleaks' := Pool.Leaks.reserve hleaks hsuits
                    obtain rfl : c' = c := by
                      rw [hleaks'.entrance?_eq] at hc'
                      exact Option.some.inj (hc'.symm.trans hc)
                    rw [heq']
                    refine ih (m := { m with pool := (m.pool.reserveSlot i slot s).2 }) hleaks' h ?_ _
                    intro j a u ha hfree hnot hj
                    have hne : i ≠ j := by
                      rintro rfl
                      obtain rfl := Option.some.inj (hset.symm.trans ha)
                      cases hfree
                    have ha' : m.pool.slots[j]? = some a := (List.getElem?_set_ne hne).symm.trans ha
                    refine hsuits'.setsAside.isHeld (hlost j a u ha' hfree ?_ hj)
                    exact fun hprimary => hnot ((hsuits.setsAside.isPrimary_iff j).2 hprimary)
          · rw [resolve_unmapped hs (by simpa using hfactory)] at h
            rw [resolve_unmapped hs' (by simpa using hfactory)]
            cases h
            exact .inl rfl

/-- One operand is found and the others are looked for from there, or the search ends with it. -/
theorem resolve_cons_cases (job : RoutingJob) (n : Nat) (isReset : Bool) (s : Symbol) (cells : List Cell)
    (tickets : List Ticket) (m : Mapping) :
    (∃ cells' tickets' m', (∀ u, m'.coordinate? u = m.coordinate? u) ∧
      ∀ rest, job.resolve n isReset (s :: rest) cells tickets m = job.resolve n isReset rest cells' tickets' m') ∨
    (isReset = false ∧ s.isFactory = true ∧ m.coordinate? s = none ∧ job.reserve? m.pool n s = none ∧
      ∀ rest, job.resolve n isReset (s :: rest) cells tickets m = (.lacking, tickets, m)) ∨
    (s.isFactory = false ∧ m.coordinate? s = none ∧
      ∀ rest, job.resolve n isReset (s :: rest) cells tickets m = (.unmapped s, tickets, m)) := by
  cases hs : m.coordinate? s with
  | some c => exact .inl ⟨_, _, _, fun _ => rfl, fun _ => resolve_seated hs⟩
  | none =>
      cases hfactory : s.isFactory with
      | false => exact .inr (.inr ⟨rfl, rfl, fun _ => resolve_unmapped hs hfactory⟩)
      | true =>
          cases isReset with
          | true => exact .inl ⟨_, _, _, fun _ => rfl, fun _ => resolve_unbound hs hfactory⟩
          | false =>
              cases hk : job.reserve? m.pool n s with
              | none => exact .inr (.inl ⟨rfl, rfl, rfl, rfl, fun _ => resolve_lacking hs hfactory hk⟩)
              | some reserved =>
                  obtain ⟨k, q⟩ := reserved
                  obtain ⟨i, slot, hsuits, hq⟩ := suits_of_reserve? hk
                  obtain ⟨c, hc, -⟩ := resolve_reserved hs hfactory hk [] cells tickets
                  refine .inl ⟨cells ++ [c], tickets ++ [k], { m with pool := q }, ?_, fun rest => ?_⟩
                  · exact ((Mapping.SameSeats.refl m).reserve hsuits hq).coordinate?_eq
                  · obtain ⟨c', hc', heq⟩ := resolve_reserved hs hfactory hk rest cells tickets
                    obtain rfl : c = c' := Option.some.inj (hc.symm.trans hc')
                    exact heq

theorem resolve_append {before after : List Symbol}
    (hr : job.resolve n isReset before cells tickets m = (.found cells', tickets', m')) :
    job.resolve n isReset (before ++ after) cells tickets m = job.resolve n isReset after cells' tickets' m' := by
  induction before generalizing cells tickets m with
  | nil =>
      cases hr
      rfl
  | cons s rest ih =>
      obtain ⟨_, _, _, -, hnext⟩ | ⟨-, -, -, -, hstop⟩ | ⟨-, -, hstop⟩ :=
        job.resolve_cons_cases n isReset s cells tickets m
      · rw [hnext] at hr
        rw [List.cons_append, hnext, ih hr]
      · rw [hstop] at hr
        cases hr
      · rw [hstop] at hr
        cases hr

/-- A factory that is lacking: it cannot be reserved once the operands before it have theirs. -/
theorem lacking_of_resolve
    (hr : job.resolve n isReset operands cells tickets m = (.lacking, tickets', m')) :
    ∃ before u after cells', operands = before ++ u :: after ∧
      job.resolve n isReset before cells tickets m = (.found cells', tickets', m') ∧ isReset = false ∧
      u.isFactory = true ∧ m'.coordinate? u = none ∧ job.reserve? m'.pool n u = none := by
  induction operands generalizing cells tickets m with
  | nil => simp [resolve] at hr
  | cons s rest ih =>
      obtain ⟨_, _, _, -, hnext⟩ | ⟨hneeded, hfactory, hs, hk, hstop⟩ | ⟨-, -, hstop⟩ :=
        job.resolve_cons_cases n isReset s cells tickets m
      · rw [hnext] at hr
        obtain ⟨before, u, after, cells', rfl, hbefore, hu⟩ := ih hr
        exact ⟨s :: before, u, after, cells', rfl, (hnext before).trans hbefore, hu⟩
      · rw [hstop] at hr
        cases hr
        exact ⟨[], s, rest, cells, rfl, rfl, hneeded, hfactory, hs, hk⟩
      · rw [hstop] at hr
        cases hr

/-- A symbol that is found in no cell is no factory's. -/
theorem unmapped_of_resolve {u : Symbol}
    (hr : job.resolve n isReset operands cells tickets m = (.unmapped u, tickets', m')) :
    u ∈ operands ∧ u.isFactory = false ∧ m.coordinate? u = none := by
  induction operands generalizing cells tickets m with
  | nil => simp [resolve] at hr
  | cons s rest ih =>
      obtain ⟨_, _, _, hseats, hnext⟩ | ⟨-, -, -, -, hstop⟩ | ⟨hplain, hs, hstop⟩ :=
        job.resolve_cons_cases n isReset s cells tickets m
      · rw [hnext] at hr
        obtain ⟨hu, hplain, hnone⟩ := ih hr
        exact ⟨List.mem_cons_of_mem _ hu, hplain, (hseats u).symm.trans hnone⟩
      · rw [hstop] at hr
        cases hr
      · rw [hstop] at hr
        cases hr
        exact ⟨List.mem_cons_self, hplain, hs⟩

end Lookup

/-! ### On a vacant grid -/

/-- The pool once what was reserved for a gate has been given back. -/
def poolAfter (job : RoutingJob) (m : Mapping) (n : Nat) (g : Gate) : Pool :=
  let (_, tickets, m') := job.resolve n g.isReset g.operands [] [] m
  m'.pool.releaseAll tickets

theorem leaks_poolAfter (job : RoutingJob) (m : Mapping) (n : Nat) (g : Gate) :
    m.pool.Leaks (job.poolAfter m n g) := by
  obtain ⟨⟨found, tickets, m'⟩, hresolve⟩ : ∃ r, job.resolve n g.isReset g.operands [] [] m = r := ⟨_, rfl⟩
  unfold poolAfter
  rw [hresolve]
  exact (drawn_of_resolve hresolve).leaks

/-- A gate that waits leaves the fabric as it is, but for the reservations that it loses. -/
theorem Waits.tryRoute_poolAfter (h : job.Waits f n t g) (hg : job.circuit.gate? n = some g) :
    job.tryRoute f n t = if t + max g.cycles 1 ≤ Word.top
      then .ok (f.withPool (job.poolAfter f.mapping n g), .ok none) else .error .overflow := by
  obtain ⟨found, tickets, m, hresolve, heq⟩ := h.tryRoute_rollback hg
  have hback : Fabric.rollback { f with mapping := m } tickets = f.withPool (m.pool.releaseAll tickets) := by
    show Fabric.mk f.grid { m with pool := m.pool.releaseAll tickets } f.teleports = _
    rw [(setsAside_of_resolve hresolve).1]
    rfl
  rw [heq, hback, poolAfter, hresolve]

theorem Waits.eq_of_tryRoute {result : Except CompileError (Option Route)} (h : job.Waits f n t g)
    (hg : job.circuit.gate? n = some g) (htry : job.tryRoute f n t = .ok (f', result)) :
    f' = f.withPool (job.poolAfter f.mapping n g) ∧ result = .ok none := by
  have heq := htry.symm.trans (h.tryRoute_poolAfter hg)
  split at heq
  · cases heq
    exact ⟨rfl, rfl⟩
  · cases heq

/-- A gate that waits at every tick, whatever reservations are lost. -/
def Barred (job : RoutingJob) (f : Fabric) (n : Nat) (g : Gate) : Prop :=
  ∀ q, f.mapping.pool.Leaks q → ∀ t, job.Waits (f.withPool q) n t g

theorem Barred.waits (h : job.Barred f n g) (t : Nat) : job.Waits f n t g :=
  h f.mapping.pool (.refl _ _) t

theorem Barred.leaks {q : Pool} (h : job.Barred f n g) (hq : f.mapping.pool.Leaks q) :
    job.Barred (f.withPool q) n g :=
  fun q' hq' t => h q' (Pool.Leaks.trans hq hq') t

/-- A gate that waits on a vacant grid waits for good. -/
theorem Waits.barred (h : job.Waits f n t g) (hvacant : f.grid.holds = []) :
    job.Barred (f.withPool (job.poolAfter f.mapping n g)) n g := by
  intro q hq t'
  have hleaks : f.mapping.pool.Leaks q := Pool.Leaks.trans (job.leaks_poolAfter f.mapping n g) hq
  show job.Waits (f.withPool q) n t' g
  rw [Waits] at h ⊢
  obtain ⟨⟨found, tickets, m⟩, hresolve⟩ :
      ∃ r, job.resolve n g.isReset g.operands [] [] f.mapping = r := ⟨_, rfl⟩
  have hpool : job.poolAfter f.mapping n g = m.pool.releaseAll tickets := by rw [poolAfter, hresolve]
  rw [hresolve] at h
  have hlater : (job.resolve n g.isReset g.operands [] [] (f.withPool q).mapping).1 = found ∨
      (job.resolve n g.isReset g.operands [] [] (f.withPool q).mapping).1 = .lacking := by
    refine resolve_later hleaks hresolve (fun i a s _ _ hnot hi => ?_) []
    have hlost := (drawn_of_resolve hresolve).getElem?_lost hi hnot
    rw [← hpool] at hlost
    refine Pool.SetsAside.isHeld hq (List.any_eq_true.2 ⟨_, List.mem_of_getElem? hlost, ?_⟩)
    simp [Occupancy.heldBy]
  obtain heq | heq := hlater
  · rw [heq]
    cases found with
    | unmapped u => exact h.elim
    | lacking => trivial
    | found cells =>
        refine (plan?_eq_none_iff_of_vacant (f := f.withPool q) hvacant (by omega)).2 ?_
        exact (plan?_eq_none_iff_of_vacant hvacant (by omega)).1 h
  · rw [heq]
    trivial

/-- Why a gate is not admitted on a vacant grid. -/
inductive Stuck (job : RoutingJob) (f : Fabric) (n : Nat) (g : Gate) : Prop
  /-- A factory is lacking once the operands before it have reserved theirs. -/
  | lacking {before after : List Symbol} {u : Symbol} {cells : List Cell} {tickets : List Ticket} {m : Mapping}
      (operands_eq : g.operands = before ++ u :: after)
      (earlier : job.resolve n g.isReset before [] [] f.mapping = (.found cells, tickets, m))
      (needed : g.isReset = false) (factory : u.isFactory = true) (unbound : f.mapping.pool.binding? u = none)
      (taken : m.pool.isHeld u = true ∨
        ∀ slot ∈ m.pool.slots, u.template? = some slot.template → slot.occupancy ≠ .free)
  /-- An operand is off the grid. -/
  | outside {cells : List Cell} {tickets : List Ticket} {m : Mapping} {c : Cell}
      (found : job.resolve n g.isReset g.operands [] [] f.mapping = (.found cells, tickets, m)) (mem : c ∈ cells)
      (outside : f.grid.inside c = false)
  /-- A leg has no path. -/
  | cutOff {cells : List Cell} {tickets : List Ticket} {m : Mapping}
      (found : job.resolve n g.isReset g.operands [] [] f.mapping = (.found cells, tickets, m))
      (inside : ∀ c ∈ cells, f.grid.inside c = true) (cutOff : job.CutOff f.grid cells cells)

/-- No factory is to be had for a symbol that holds one or whose template has none that is free. -/
theorem reserve?_eq_none_iff_taken {pool : Pool} {u : Symbol} (hu : u.isFactory = true) :
    job.reserve? pool n u = none ↔ pool.isHeld u = true ∨
      ∀ slot ∈ pool.slots, u.template? = some slot.template → slot.occupancy ≠ .free := by
  obtain ⟨template, htemplate⟩ := Option.isSome_iff_exists.1 ((Symbol.template?_isSome u).trans hu)
  rw [reserve?_eq_none_iff]
  constructor
  · intro h
    refine (h template htemplate).imp_right fun hchoose slot hslot heq hfree => ?_
    obtain rfl : template = slot.template := Option.some.inj (htemplate.symm.trans heq)
    have hnot := Pool.preferred?_eq_none_iff.1 (Option.or_eq_none_iff.1 hchoose).2 slot hslot
    simp [Pool.isOffered, hfree] at hnot
  · rintro h template' htemplate'
    refine h.imp_right fun hfree => Option.eq_none_iff_forall_ne_some.2 ?_
    rintro ⟨i, slot⟩ hchoose
    obtain ⟨hget, hoffered⟩ := Pool.choose?_isOffered hchoose
    refine hfree slot (List.mem_of_getElem? hget) ?_ (Pool.free_of_isOffered hoffered)
    rw [htemplate', beq_iff_eq.1 (Bool.and_eq_true_iff.1 hoffered).1]

theorem coordinate?_of_resolve {operands : List Symbol} {found : Operands} {tickets : List Ticket} {m m' : Mapping}
    (hr : job.resolve n g.isReset operands [] [] m = (found, tickets, m')) (u : Symbol) :
    m'.coordinate? u = m.coordinate? u := by
  obtain ⟨hm, haside⟩ := setsAside_of_resolve hr
  rw [hm]
  exact (m.sameSeats_of_setsAside haside).coordinate?_eq u

theorem coordinate?_eq_none_iff {m : Mapping} {u : Symbol} (hu : u.isFactory = true) :
    m.coordinate? u = none ↔ m.pool.binding? u = none := by
  rw [Mapping.coordinate?, if_pos hu, Option.map_eq_none_iff]

/-- On a vacant grid a gate waits exactly for one of these reasons. -/
theorem waits_iff_stuck (hvacant : f.grid.holds = []) : job.Waits f n t g ↔ job.Stuck f n g := by
  rw [Waits]
  constructor
  · intro h
    obtain ⟨⟨found, tickets, m⟩, hresolve⟩ :
        ∃ r, job.resolve n g.isReset g.operands [] [] f.mapping = r := ⟨_, rfl⟩
    rw [hresolve] at h
    cases found with
    | unmapped u => exact h.elim
    | lacking =>
        obtain ⟨before, u, after, cells, hoperands, hbefore, hneeded, hu, hnone, hreserve⟩ :=
          lacking_of_resolve hresolve
        rw [coordinate?_of_resolve hbefore, coordinate?_eq_none_iff hu] at hnone
        exact .lacking hoperands hbefore hneeded hu hnone ((reserve?_eq_none_iff_taken hu).1 hreserve)
    | found cells =>
        by_cases hinside : ∀ c ∈ cells, f.grid.inside c = true
        · obtain ⟨c, hc, hout⟩ | hlegs := (plan?_eq_none_iff_of_vacant hvacant (by omega)).1 h
          · exact .outside hresolve hc hout
          · exact .cutOff hresolve hinside (cutOff_of_legs hvacant hinside hlegs)
        · push Not at hinside
          obtain ⟨c, hc, hout⟩ := hinside
          exact .outside hresolve hc (Bool.eq_false_iff.2 hout)
  · intro h
    cases h with
    | lacking hoperands hbefore hneeded hu hunbound htaken =>
        rw [← coordinate?_eq_none_iff hu, ← coordinate?_of_resolve hbefore] at hunbound
        rw [hoperands, resolve_append hbefore, hneeded,
          resolve_lacking hunbound hu ((reserve?_eq_none_iff_taken hu).2 htaken)]
        trivial
    | outside hresolve hc hout =>
        rw [hresolve]
        exact (plan?_eq_none_iff_of_vacant hvacant (by omega)).2 (.inl ⟨_, hc, hout⟩)
    | cutOff hresolve hinside hcut =>
        rw [hresolve]
        exact (plan?_eq_none_iff_of_vacant hvacant (by omega)).2 (.inr (hcut.legs_eq hvacant hinside))

end RoutingJob

end SurfaceFabric
