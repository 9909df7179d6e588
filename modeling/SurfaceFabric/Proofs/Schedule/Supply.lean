import SurfaceFabric.Proofs.Circuit.Tenure
import SurfaceFabric.Proofs.Mapping.Pool
import SurfaceFabric.Proofs.Schedule.Validity

/-!
The demand for factories in a schedule. A gate that starts takes a factory for the first factory symbol among
its operands and looks at no other. So the demand stays within the stock for circuits in which no other
operand is put to use, and may exceed it where a gate puts two to use at once. The pool must have one template
for each handle, which is so for the pool of every mapping.
-/

namespace SurfaceFabric

/-- Circuits whose gates put no factory symbol to use but the first among their operands. -/
def Circuit.Frugal (c : Circuit) : Prop :=
  ∀ n g u, c.gate? n = some g → c.Begins u n → u.isFactory = true → g.factoryOperand? = some u

instance (c : Circuit) : Decidable c.Frugal :=
  decidable_of_iff (∀ n ∈ List.range c.size, ∀ g ∈ c.gate? n, ∀ u ∈ g.operands, c.Begins u n →
      u.isFactory = true → g.factoryOperand? = some u) <| by
    constructor
    · intro h n g u hg hbegins hfactory
      obtain ⟨g', hg', -, hu⟩ := hbegins.employs
      obtain rfl := Option.some.inj (hg.symm.trans hg')
      exact h n (List.mem_range.2 (Circuit.lt_size_of_gate? hg)) g hg u hu hbegins hfactory
    · intro h n _ g hg u _ hbegins hfactory
      exact h n g u hg hbegins hfactory

namespace Job

variable {job : Job} {m m' : Moment} {c : Circuit} {stock : String → Nat} {pool pool' : Pool}
  {begun done : List Nat} {n t : Nat} {u : Symbol}

theorem Timely.dependencies_finished (h : Timely job m) {s : Start} (hs : s ∈ m.started) :
    ∀ p ∈ job.circuit.dependencies s.node, p ∈ m.finished := by
  intro p hp
  obtain ⟨r, hr, rfl, hle⟩ := h.ordered s hs p hp
  rcases List.mem_append.1 (h.tracked.split.mem_iff.2 (List.mem_map_of_mem hr)) with hr' | hr'
  · exact hr'
  · -- a gate that has ended is not running
    obtain ⟨r', hrunning, heq⟩ := List.mem_map.1 hr'
    obtain ⟨hstarted, hlt⟩ := (h.running_iff r').1 hrunning
    obtain rfl := List.inj_on_of_nodup_map h.tracked.nodup hstarted hr heq
    have := h.begun s hs
    omega

theorem Timely.settled (h : Timely job m) (hbuilt : job.circuit.Built)
    (hn : ∀ p ∈ job.circuit.dependencies n, p ∈ m.finished) : job.circuit.Settled m.finished n := by
  intro k hlt v hk hv
  refine hbuilt.mem_of_shared ?_ hn hlt hk hv
  intro p hp
  obtain ⟨s, hs, rfl, -⟩ := h.ended p hp
  exact h.dependencies_finished hs

theorem Timely.pacing (h : Timely job m) (hbuilt : job.circuit.Built) :
    job.circuit.Pacing (m.started.map Start.node) m.finished := by
  constructor
  · intro k hk
    obtain ⟨s, hs, rfl, -⟩ := h.ended k hk
    exact List.mem_map_of_mem hs
  · intro k hk
    obtain ⟨s, hs, rfl⟩ := List.mem_map.1 hk
    exact h.settled hbuilt (h.dependencies_finished hs)

theorem Timely.due_started (h : Timely job m) {due : List Start} (hdue : nextDue m = (t, due)) (hsome : due ≠ []) :
    ∀ s ∈ due, s ∈ m.started := by
  obtain ⟨-, -, rfl⟩ := nextDue_spec hdue hsome
  intro s hs
  exact ((h.running_iff s).1 (List.mem_filter.1 (mem_sortBy.1 hs)).1).1

theorem Timely.nodup_due (h : Timely job m) {due : List Start} (hdue : nextDue m = (t, due)) (hsome : due ≠ []) :
    (m.finished ++ due.map Start.node).Nodup := by
  have hnext := (h.complete hdue hsome m.pool).tracked
  exact (hnext.split.nodup_iff.2 hnext.nodup).of_append_left

/-- A start leaves the pool as it is and records nothing, or takes a factory for the first factory operand and
records it. -/
theorem engage?_cases {g : Gate} {length : Nat} {binding : Option Nat}
    (h : engage? pool g t = some (length, binding, pool')) :
    pool' = pool ∧ binding = none ∧
        (∀ u, g.factoryOperand? = some u → g.isReset = true ∨ (pool.binding? u).isSome = true) ∨
      ∃ u k q, g.factoryOperand? = some u ∧ g.isReset = false ∧ pool.reserve? u = some (k, q) ∧
        pool' = q.commit k ∧ binding = some k.handle := by
  rw [engage?] at h
  dsimp only at h
  split at h
  · next hnone =>
      cases h
      exact .inl ⟨rfl, rfl, fun u hu => by rw [hnone] at hu; cases hu⟩
  · next s hs =>
      split at h
      · next hkeep =>
          cases h
          refine .inl ⟨rfl, rfl, fun u hu => ?_⟩
          obtain rfl := Option.some.inj (hs.symm.trans hu)
          exact Bool.or_eq_true_iff.1 hkeep
      · next htake =>
          obtain ⟨⟨k, q⟩, hreserve, h⟩ := Option.bind_eq_some_iff.1 h
          cases h
          rw [Bool.or_eq_true_iff, not_or] at htake
          exact .inr ⟨s, k, q, hs, Bool.eq_false_of_not_eq_true htake.1, hreserve, rfl, rfl⟩

/-- A gate that cannot start with a channel at hand lacks a factory. -/
theorem exists_reserve?_eq_none {g : Gate} (h : engage? pool g t = none) :
    ∃ u, g.factoryOperand? = some u ∧ g.isReset = false ∧ (pool.binding? u).isSome = false ∧
      pool.reserve? u = none := by
  rw [engage?] at h
  dsimp only at h
  split at h
  · cases h
  · next u hu =>
      split at h
      · cases h
      · next htake =>
          rw [Bool.or_eq_true_iff, not_or] at htake
          refine ⟨u, hu, Bool.eq_false_of_not_eq_true htake.1, Bool.eq_false_of_not_eq_true htake.2, ?_⟩
          cases hreserve : pool.reserve? u with
          | none => rfl
          | some taken =>
              rw [hreserve] at h
              cases h

/-- A gate that ends gives the factory of the symbol it resets back. -/
theorem settle_cases (hbuilt : job.circuit.Built) (t : Nat) (pool : Pool) (s : Start) :
    job.settle t pool s = pool ∧ (∀ u, ¬job.circuit.Resets s.node u) ∨
      ∃ w, job.settle t pool s = pool.free w t ∧ ∀ u, job.circuit.Resets s.node u ↔ u = w := by
  obtain ⟨hkind, hnone⟩ | ⟨g, w, hgate, hreset, hoperand, hresets⟩ := hbuilt.resets_cases s.node
  · refine .inl ⟨?_, hnone⟩
    rw [settle]
    split
    · rfl
    · next g hgate => rw [hkind g hgate, if_neg Bool.false_ne_true]
  · exact .inr ⟨w, by simp [settle, hgate, hreset, hoperand], hresets⟩

/-- Symbols in use and idle factories: what is bound is in use, and of each template the symbols in use and
the factories that are idle come to no more than there are. -/
structure Supplied (c : Circuit) (stock : String → Nat) (pool : Pool) (begun done : List Nat) : Prop where
  lent : pool.Lent
  inUse : ∀ slot ∈ pool.slots, ∀ u, slot.occupancy = .bound u → c.InUse begun done u
  enough : ∀ (template : String) (symbols : List Symbol), symbols.Nodup →
    (∀ u ∈ symbols, u.template? = some template ∧ c.InUse begun done u) →
      symbols.length + pool.idle template ≤ stock template

namespace Supplied

theorem start (huniform : pool.Uniform) (hfree : ∀ slot ∈ pool.slots, slot.occupancy = .free) :
    Supplied c pool.stock pool [] [] := by
  refine ⟨.of_free huniform hfree, ?_, ?_⟩
  · intro slot hslot u hbound
    rw [hfree slot hslot] at hbound
    cases hbound
  · intro template symbols _ huse
    cases symbols with
    | nil => simpa using pool.idle_le_stock template
    | cons u _ =>
        obtain ⟨b, hb, -⟩ := (huse u List.mem_cons_self).2
        cases hb

/-- The start of a gate. What it puts to use takes a factory that was idle. -/
theorem begin {g : Gate} {length : Nat} {binding : Option Nat} (h : Supplied c stock pool begun done)
    (hfrugal : c.Frugal) (hpacing : c.Pacing begun done) (hnew : n ∉ begun) (hsettled : c.Settled done n)
    (hgate : c.gate? n = some g) (hengage : engage? pool g t = some (length, binding, pool')) :
    Supplied c stock pool' (begun ++ [n]) done := by
  have hused (u : Symbol) (hfactory : u.isFactory = true) (hu : c.InUse (begun ++ [n]) done u) :
      c.InUse begun done u ∨ c.Begins u n ∧ g.factoryOperand? = some u := by
    obtain ⟨b, hb, hbegins, hunbroken⟩ := hu
    rcases List.mem_append.1 hb with hb | hb
    · exact .inl ⟨b, hb, hbegins, hunbroken⟩
    · rw [List.mem_singleton.1 hb] at hbegins
      exact .inr ⟨hbegins, hfrugal n g u hgate hbegins hfactory⟩
  obtain ⟨rfl, -, hkeep⟩ | ⟨w, k, q, hoperand, hreset, hreserve, rfl, -⟩ := engage?_cases hengage
  · refine ⟨h.lent, fun slot hslot u hbound => (h.inUse slot hslot u hbound).append _, ?_⟩
    intro template symbols hnodup huse
    refine h.enough template symbols hnodup fun u hu => ?_
    obtain ⟨htemplate, hu⟩ := huse u hu
    refine ⟨htemplate, ?_⟩
    obtain hinUse | ⟨hbegins, hoperand⟩ := hused u (Symbol.isFactory_of_template? htemplate) hu
    · exact hinUse
    · -- the gate puts nothing to use that is not bound, and what is bound was in use
      rcases hkeep u hoperand with hreset | hbound
      · exact absurd ⟨g, hgate, hreset, List.mem_of_find?_eq_some hoperand⟩ hbegins.employs.not_resets
      · obtain ⟨slot, hslot, hbound⟩ := Pool.binding?_isSome_iff.1 hbound
        exact h.inUse slot hslot u hbound
  · have htakes := h.lent.takes hreserve
    have hold (u : Symbol) (hfactory : u.isFactory = true) (hne : u ≠ w)
        (hu : c.InUse (begun ++ [n]) done u) : c.InUse begun done u := by
      refine (hused u hfactory hu).resolve_right fun hnew => ?_
      exact hne (Option.some.inj (hnew.2.symm.trans hoperand))
    refine ⟨htakes.lent, ?_, ?_⟩
    · intro slot hslot u hbound
      obtain rfl | ⟨slot', hslot', hbound'⟩ := htakes.bound u ⟨slot, hslot, hbound⟩
      · have hemploys : c.Employs n u := ⟨g, hgate, hreset, List.mem_of_find?_eq_some hoperand⟩
        obtain hinUse | hbegins := hpacing.inUse_cases hnew hsettled hemploys
        · exact hinUse.append _
        · refine ⟨n, List.mem_append_right _ (List.mem_singleton_self n), hbegins, ?_⟩
          exact hpacing.unbroken hnew hemploys.actsOn
      · exact (h.inUse slot' hslot' u hbound').append _
    · intro template symbols hnodup huse
      by_cases hw : w ∈ symbols
      · have hidle := htakes.idle_lt template (huse w hw).1
        have henough := h.enough template (symbols.erase w) (hnodup.erase w) fun u hu => by
          obtain ⟨hne, hu⟩ := hnodup.mem_erase_iff.1 hu
          obtain ⟨htemplate, hu⟩ := huse u hu
          exact ⟨htemplate, hold u (Symbol.isFactory_of_template? htemplate) hne hu⟩
        rw [List.length_erase_of_mem hw] at henough
        have := List.length_pos_of_mem hw
        omega
      · have hidle := htakes.idle_le template
        have henough := h.enough template symbols hnodup fun u hu => by
          have hne : u ≠ w := fun heq => hw (heq ▸ hu)
          obtain ⟨htemplate, hu⟩ := huse u hu
          exact ⟨htemplate, hold u (Symbol.isFactory_of_template? htemplate) hne hu⟩
        omega

/-- The end of a gate puts nothing to use. -/
theorem enough_finish (h : Supplied c stock pool begun done) (z : Nat) (template : String)
    (symbols : List Symbol) (hnodup : symbols.Nodup)
    (huse : ∀ u ∈ symbols, u.template? = some template ∧ c.InUse begun (done ++ [z]) u) :
    symbols.length + pool.idle template ≤ stock template :=
  h.enough template symbols hnodup fun u hu => ⟨(huse u hu).1, (huse u hu).2.of_finish⟩

/-- The end of a gate. A reset that gives a factory back ends the use of the symbol that had it. -/
theorem settle {s : Start} (hbuilt : job.circuit.Built) (h : Supplied job.circuit stock pool begun done)
    (hpacing : job.circuit.Pacing begun done) (hrunning : s.node ∉ done) (t : Nat) :
    Supplied job.circuit stock (job.settle t pool s) begun (done ++ [s.node]) := by
  obtain ⟨heq, hnone⟩ | ⟨w, heq, hresets⟩ := settle_cases hbuilt t pool s
  · rw [heq]
    exact ⟨h.lent, fun slot hslot u hbound => (h.inUse slot hslot u hbound).finish (hnone u),
      h.enough_finish s.node⟩
  · rw [heq]
    obtain ⟨hsame, hunbound⟩ | ⟨⟨slot, hslot, hbound⟩, hreturns⟩ := h.lent.free_cases w t
    · rw [hsame]
      refine ⟨h.lent, fun slot hslot u hbound => ?_, h.enough_finish s.node⟩
      refine (h.inUse slot hslot u hbound).finish fun hreset => ?_
      rw [(hresets u).1 hreset] at hbound
      exact hunbound slot hslot hbound
    · refine ⟨hreturns.lent, fun slot hslot u hbound => ?_, ?_⟩
      · obtain ⟨hne, slot', hslot', hbound'⟩ := hreturns.bound u ⟨slot, hslot, hbound⟩
        exact (h.inUse slot' hslot' u hbound').finish fun hreset => hne ((hresets u).1 hreset)
      · intro template symbols hnodup huse
        have hidle := hreturns.idle_le template
        by_cases htemplate : w.template? = some template
        · -- the symbol that is reset was in use, and no longer is
          have hw : w ∉ symbols := fun hw =>
            hpacing.not_inUse hrunning ((hresets w).2 rfl) (huse w hw).2
          have henough := h.enough template (w :: symbols) (List.nodup_cons.2 ⟨hw, hnodup⟩) fun u hu => by
            rcases List.mem_cons.1 hu with rfl | hu
            · exact ⟨htemplate, h.inUse slot hslot u hbound⟩
            · exact ⟨(huse u hu).1, (huse u hu).2.of_finish⟩
          rw [if_pos htemplate] at hidle
          rw [List.length_cons] at henough
          omega
        · have henough := h.enough_finish s.node template symbols hnodup huse
          rw [if_neg htemplate] at hidle
          omega

theorem settleAll {due : List Start} (hbuilt : job.circuit.Built)
    (h : Supplied job.circuit stock pool begun done) (hpacing : job.circuit.Pacing begun done)
    (hdue : ∀ s ∈ due, s.node ∈ begun) (hnodup : (done ++ due.map Start.node).Nodup) (t : Nat) :
    Supplied job.circuit stock (due.foldl (job.settle t) pool) begun (done ++ due.map Start.node) := by
  induction due generalizing pool done with
  | nil => simpa using h
  | cons s due ih =>
      have hrunning : s.node ∉ done := fun hmem =>
        List.disjoint_of_nodup_append hnodup hmem List.mem_cons_self
      rw [List.map_cons, List.append_cons] at hnodup ⊢
      exact ih (h.settle hbuilt hpacing hrunning t) (hpacing.finish (hdue s List.mem_cons_self))
        (fun r hr => hdue r (List.mem_cons_of_mem _ hr)) hnodup

end Supplied

/-- A symbol in use at a tick: the gate that puts it to use has started, and the reset that ends this use has
not ended. -/
def LiveAt (c : Circuit) (started : List Start) (u : Symbol) (t : Nat) : Prop :=
  ∃ b ∈ started, c.Begins u b.node ∧ b.start ≤ t ∧
    ∀ z ∈ started, c.Closes u b.node z.node → t < z.finish

/-- From now on no more symbols are in use than are in use now. -/
theorem Timely.inUse_of_liveAt (h : Timely job m) (hbuilt : job.circuit.Built) (ht : m.clock ≤ t)
    (hlive : LiveAt job.circuit m.started u t) :
    job.circuit.InUse (m.started.map Start.node) m.finished u := by
  obtain ⟨b, hb, hbegins, -, hlast⟩ := hlive
  refine ⟨b.node, List.mem_map_of_mem hb, hbegins, fun r hr hreset => ?_⟩
  by_contra hle
  obtain ⟨z, hz, hcloses⟩ := (h.pacing hbuilt).exists_closes hr hreset (Nat.le_of_not_lt hle)
  obtain ⟨s, hs, rfl, hend⟩ := h.ended z hz
  have := hlast s hs hcloses
  omega

/-- At every tick so far, and at every later tick as far as it is known, there are factories for all symbols
in use. -/
structure Metered (job : Job) (stock : String → Nat) (m : Moment) : Prop where
  supplied : Supplied job.circuit stock m.pool (m.started.map Start.node) m.finished
  live_le : ∀ (template : String) (t : Nat) (symbols : List Symbol), symbols.Nodup →
    (∀ u ∈ symbols, u.template? = some template ∧ LiveAt job.circuit m.started u t) →
      symbols.length ≤ stock template

theorem Metered.begin {g : Gate} {length : Nat} {binding : Option Nat} (h : Metered job stock m)
    (htimely : Timely job m) (hbuilt : job.circuit.Built) (hfrugal : job.circuit.Frugal)
    (hn : n ∈ job.waiting m) (hgate : job.circuit.gate? n = some g) (hchannel : job.hasChannel m g = true)
    (hengage : engage? m.pool g m.clock = some (length, binding, pool)) :
    Metered job stock (begin m ⟨n, m.clock, m.clock + length, binding⟩ pool) := by
  obtain ⟨-, hready, hnew⟩ := mem_waiting.1 hn
  have hnext := htimely.begin hbuilt hn hgate hchannel hengage
  have hsupplied : Supplied job.circuit stock pool
      ((Job.begin m ⟨n, m.clock, m.clock + length, binding⟩ pool).started.map Start.node) m.finished := by
    rw [Job.begin, List.map_append]
    refine h.supplied.begin hfrugal (htimely.pacing hbuilt) ?_ (htimely.settled hbuilt hready) hgate hengage
    intro hmem
    obtain ⟨s, hs, heq⟩ := List.mem_map.1 hmem
    exact hnew s hs heq
  refine ⟨hsupplied, fun template t symbols hnodup hlive => ?_⟩
  rcases Nat.lt_or_ge t m.clock with hpast | hnow
  · -- what starts now was not in use before
    refine h.live_le template t symbols hnodup fun u hu => ?_
    obtain ⟨htemplate, b, hb, hbegins, hstart, hlast⟩ := hlive u hu
    rcases List.mem_append.1 hb with hb | hb
    · exact ⟨htemplate, b, hb, hbegins, hstart, fun z hz => hlast z (List.mem_append_left _ hz)⟩
    · rw [List.mem_singleton.1 hb] at hstart
      exact absurd hstart (Nat.not_le.2 hpast)
  · have henough := hsupplied.enough template symbols hnodup fun u hu =>
      And.intro (hlive u hu).1 (hnext.inUse_of_liveAt hbuilt hnow (hlive u hu).2)
    omega

theorem Metered.complete {due : List Start} (h : Metered job stock m) (htimely : Timely job m)
    (hbuilt : job.circuit.Built) (hdue : nextDue m = (t, due)) (hsome : due ≠ []) :
    Metered job stock ⟨t, due.foldl (job.settle t) m.pool, m.started,
      m.running.filter fun r => r.finish != t, m.finished ++ due.map Start.node⟩ := by
  refine ⟨h.supplied.settleAll hbuilt (htimely.pacing hbuilt) ?_ (htimely.nodup_due hdue hsome) t, h.live_le⟩
  exact fun s hs => List.mem_map_of_mem (htimely.due_started hdue hsome s hs)

theorem Metered.reaches (h : Metered job stock m) (htimely : Timely job m) (hbuilt : job.circuit.Built)
    (hfrugal : job.circuit.Frugal) (hreach : Reaches job m m') : Metered job stock m' := by
  induction hreach with
  | refl => exact h
  | tail hreach hevent ih =>
      have htimely := htimely.reaches hbuilt hreach
      cases hevent with
      | start hn hgate hchannel hengage => exact ih.begin htimely hbuilt hfrugal hn hgate hchannel hengage
      | complete hdue hsome => exact ih.complete htimely hbuilt hdue hsome

end Job

def Schedule.Live (s : Schedule) (c : Circuit) (u : Symbol) (t : Nat) : Prop :=
  ∃ b start, c.Begins u b ∧ s.start? b = some start ∧ start ≤ t ∧
    ∀ z finish, c.Closes u b z → s.finish? z = some finish → t < finish

instance (s : Schedule) (c : Circuit) (u : Symbol) (t : Nat) : Decidable (s.Live c u t) :=
  decidable_of_iff (∃ b ∈ List.range c.size, ∃ start ∈ s.start? b, c.Begins u b ∧ start ≤ t ∧
      ∀ z ∈ List.range c.size, c.Closes u b z → ∀ finish ∈ s.finish? z, t < finish) <| by
    constructor
    · rintro ⟨b, -, start, hstart, hbegins, hle, hlast⟩
      refine ⟨b, start, hbegins, hstart, hle, fun z finish hcloses hfinish => ?_⟩
      exact hlast z (List.mem_range.2 hcloses.resets.actsOn.lt_size) hcloses finish hfinish
    · rintro ⟨b, start, hbegins, hstart, hle, hlast⟩
      refine ⟨b, List.mem_range.2 hbegins.employs.actsOn.lt_size, start, hstart, hbegins, hle, ?_⟩
      exact fun z _ hcloses finish hfinish => hlast z finish hcloses hfinish

/-- A schedule never has more symbols of a template in use than there are factories in a pool. -/
def Schedule.WithinStock (s : Schedule) (c : Circuit) (pool : Pool) : Prop :=
  ∀ (template : String) (t : Nat) (symbols : List Symbol), symbols.Nodup →
    (∀ u ∈ symbols, u.template? = some template ∧ s.Live c u t) → symbols.length ≤ pool.stock template

theorem Schedule.withinStock {c : Circuit} {pool : Pool} {budget : Nat} {s : Schedule} (hbuilt : c.Built)
    (hfrugal : c.Frugal) (huniform : pool.Uniform) (hfree : ∀ slot ∈ pool.slots, slot.occupancy = .free)
    (h : Schedule.ofCircuit c pool budget = .ok s) : s.WithinStock c pool := by
  intro template t symbols hnodup hlive
  obtain ⟨slacks, channels, -, hsimulate⟩ := Schedule.exists_simulate_of_ofCircuit h
  obtain ⟨m, hreach, hsize, rfl⟩ := Job.reaches_of_simulate hsimulate
  have htimely := (Job.timely_start _ pool).reaches hbuilt hreach
  have hmetered : Job.Metered ⟨c, slacks, channels⟩ pool.stock m := by
    refine Job.Metered.reaches ⟨.start huniform hfree, ?_⟩ (Job.timely_start _ pool) hbuilt hfrugal hreach
    intro template t symbols _ hlive
    cases symbols with
    | nil => exact Nat.zero_le _
    | cons u _ =>
        obtain ⟨-, b, hb, -⟩ := hlive u List.mem_cons_self
        cases hb
  refine hmetered.live_le template t symbols hnodup fun u hu => ?_
  obtain ⟨htemplate, b, start, hbegins, hstart, hle, hlast⟩ := hlive u hu
  obtain ⟨r, hr, rfl, rfl⟩ := (htimely.tracked.start?_eq_some_iff hsize).1 hstart
  refine ⟨htemplate, r, hr, hbegins, hle, fun z hz hcloses => ?_⟩
  exact hlast z.node z.finish hcloses (htimely.tracked.row_eq hz).2.1

/-- A schedule for a circuit whose gates put no factory symbol to use but the first among their operands never
has more symbols of a template in use than there are factories. The pool of a mapping needs no condition for it. -/
theorem ofCircuit_live_le_stock {c : Circuit} {budget : Nat} {s : Schedule} (hbuilt : c.Built) (hfrugal : c.Frugal) :
    (∀ pool : Pool, pool.Uniform → (∀ slot ∈ pool.slots, slot.occupancy = .free) →
      Schedule.ofCircuit c pool budget = .ok s → s.WithinStock c pool) ∧
    ∀ l, Schedule.ofCircuit c (Mapping.ofLayout l).pool budget = .ok s →
      s.WithinStock c (Mapping.ofLayout l).pool := by
  refine ⟨fun pool => Schedule.withinStock hbuilt hfrugal, fun l h => ?_⟩
  exact Schedule.withinStock hbuilt hfrugal (Mapping.uniform_ofLayout l)
    (fun slot hslot => (Mapping.stands_ofLayout l slot hslot).1) h

namespace TightStock

/-- Two factories for three symbols. One gate works with two of them at once, and puts one of these to use
after the third has been reset. -/
def circuit : Circuit :=
  ((((Circuit.empty.append (.production (.factory "T" 0) 3)).append
    (.production (.factory "T" 1) 2)).append (.resetOf (.factory "T" 1))).append
    (.joint "inject" [.register "a", .factory "T" 2, .factory "T" 0] 2)).append
    (.resetOf (.factory "T" 2))

def layout : Layout :=
  .addUnit (.addUnit (.ofTiling ⟨2, 2, [.isolated 0 (.taken (.factory 0) ⟨0, 0, 1, 1⟩),
    .isolated 1 (.taken (.factory 1) ⟨0, 1, 1, 2⟩), .isolated 2 (.taken .route ⟨1, 0, 2, 2⟩)], 3⟩ 0)
    ⟨"T", 1, 1, 3⟩ 0) ⟨"T", 1, 1, 3⟩ 1

def schedule : Schedule where
  cycles := 6
  channels := 1
  layers := [[0, 1], [], [2], [3], [], [4]]
  starts := [0, 0, 2, 3, 5]
  ends := [3, 2, 3, 5, 6]
  bindings := [some 0, some 1, none, some 1, none]

theorem built_circuit : circuit.Built :=
  ((((Circuit.Built.empty.extend (by decide)).extend (by decide)).extend (by decide)).extend (by decide)).extend
    (by decide)

theorem built_layout : layout.Built := .addUnit _ _ (.addUnit _ _ (.ofTiling _ _))

end TightStock

theorem tightStock_live_le : TightStock.circuit.Built ∧ TightStock.circuit.Frugal ∧
    Schedule.ofCircuit TightStock.circuit (.ofLayout TightStock.layout) 2 = .ok TightStock.schedule ∧
    (∀ u ∈ [Symbol.factory "T" 0, .factory "T" 2], u.template? = some "T" ∧
      TightStock.schedule.Live TightStock.circuit u 4) ∧
    [Symbol.factory "T" 0, .factory "T" 2].length ≤ (Pool.ofLayout TightStock.layout).stock "T" := by
  have hfrugal : TightStock.circuit.Frugal := by decide +kernel
  have hschedule : Schedule.ofCircuit TightStock.circuit (.ofLayout TightStock.layout) 2 =
      .ok TightStock.schedule := by
    apply Outcome.settle_eq_ok_ok_iff.1
    decide +kernel
  have hlive : ∀ u ∈ [Symbol.factory "T" 0, .factory "T" 2], u.template? = some "T" ∧
      TightStock.schedule.Live TightStock.circuit u 4 := by
    decide +kernel
  obtain ⟨hstock, -⟩ := ofCircuit_live_le_stock TightStock.built_circuit hfrugal
  exact ⟨TightStock.built_circuit, hfrugal, hschedule, hlive,
    hstock _ (Pool.distinct_ofLayout TightStock.built_layout).uniform (fun _ => Pool.free_ofLayout) hschedule
      "T" 4 _ (by decide) hlive⟩

namespace DoubleDraw

/-- One gate that puts two factory symbols to use, and one factory. -/
def circuit : Circuit := Circuit.empty.append (.joint "fuse" [.factory "T" 0, .factory "T" 1] 1)

def pool : Pool := ⟨[⟨0, "T", ⟨0, 0⟩, 4, 0, .free⟩]⟩

def schedule : Schedule := ⟨1, 1, [[0]], [0], [1], [some 0]⟩

theorem built_circuit : circuit.Built :=
  Circuit.Built.empty.extend (by decide)

end DoubleDraw

/-- The second factory symbol of a gate is not looked at, so the demand may exceed the stock. -/
theorem doubleDraw_exceeds_stock : DoubleDraw.circuit.Built ∧ DoubleDraw.pool.Distinct ∧
    (∀ slot ∈ DoubleDraw.pool.slots, slot.occupancy = .free) ∧
    Schedule.ofCircuit DoubleDraw.circuit DoubleDraw.pool 1 = .ok DoubleDraw.schedule ∧
    (∀ u ∈ [Symbol.factory "T" 0, .factory "T" 1], u.template? = some "T" ∧
      DoubleDraw.schedule.Live DoubleDraw.circuit u 0) ∧
    DoubleDraw.pool.stock "T" < [Symbol.factory "T" 0, .factory "T" 1].length := by
  refine ⟨DoubleDraw.built_circuit, by decide, by decide, ?_, by decide +kernel, by decide⟩
  apply Outcome.settle_eq_ok_ok_iff.1
  decide +kernel

end SurfaceFabric
