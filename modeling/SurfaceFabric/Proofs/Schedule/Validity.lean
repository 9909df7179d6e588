import Mathlib.Data.List.Nodup
import SurfaceFabric.Proofs.Schedule.Step

/-!
What a schedule promises: gates take their cycles, wait for what they depend on, and never ask for more
channels than there are. The load of a tick is bounded when a gate starts, not only while it runs: gates
that are still running at a later tick are among those running now, so a free channel now is a free one
until the new gate ends.
-/

namespace SurfaceFabric

/-- A start that takes the cycles of its gate. A production round that binds a factory may be shorter. -/
def Start.Fits (s : Start) (g : Gate) : Prop :=
  s.finish = s.start + g.cycles ∨
    g.isProduction = true ∧ s.binding.isSome = true ∧ s.start < s.finish ∧ s.finish ≤ s.start + g.cycles

theorem Start.Fits.bounds {s : Start} {g : Gate} (h : s.Fits g) (hpos : 0 < g.cycles) :
    s.start < s.finish ∧ s.finish ≤ s.start + g.cycles := by
  rcases h with h | ⟨-, -, hlt, hle⟩
  · omega
  · exact ⟨hlt, hle⟩

namespace Job

variable {job : Job} {m m' : Moment}

theorem engage?_fits {pool pool' : Pool} {g : Gate} {n t length : Nat} {binding : Option Nat}
    (hpos : 0 < g.cycles) (h : engage? pool g t = some (length, binding, pool')) :
    Start.Fits ⟨n, t, t + length, binding⟩ g := by
  have hcycles : max g.cycles 1 = g.cycles := Nat.max_eq_left hpos
  simp only [engage?, hcycles] at h
  split at h
  · cases h
    exact .inl rfl
  split at h
  · cases h
    exact .inl rfl
  · obtain ⟨⟨ticket, reserved⟩, -, h⟩ := Option.bind_eq_some_iff.1 h
    cases h
    by_cases hproduction : g.isProduction = true
    · refine .inr ⟨hproduction, rfl, ?_, ?_⟩
      · simp only [hproduction, if_true]
        omega
      · simp only [hproduction, if_true]
        omega
    · apply Or.inl
      simp only [if_neg hproduction]

def occupies (job : Job) (t : Nat) (s : Start) : Bool :=
  job.isNonLocal s.node && decide (s.start ≤ t) && decide (t < s.finish)

structure Timely (job : Job) (m : Moment) : Prop where
  tracked : Tracked job m
  begun : ∀ s ∈ m.started, s.start ≤ m.clock
  running_iff : ∀ s, s ∈ m.running ↔ s ∈ m.started ∧ m.clock < s.finish
  timed : ∀ s ∈ m.started, ∃ g, job.circuit.gate? s.node = some g ∧ s.Fits g
  ended : ∀ n ∈ m.finished, ∃ s ∈ m.started, s.node = n ∧ s.finish ≤ m.clock
  ordered : ∀ s ∈ m.started, ∀ p ∈ job.circuit.dependencies s.node,
    ∃ r ∈ m.started, r.node = p ∧ r.finish ≤ s.start
  load_le : ∀ t, (m.started.filter (job.occupies t)).length ≤ job.channels

theorem timely_start (job : Job) (pool : Pool) : Timely job ⟨0, pool, [], [], []⟩ where
  tracked := by constructor <;> simp
  begun := by simp
  running_iff := by simp
  timed := by simp
  ended := by simp
  ordered := by simp
  load_le := by simp

/-- From now on no more channels are kept by the gates started than by those running. -/
theorem Timely.load_le_running (h : Timely job m) {t : Nat} (ht : m.clock ≤ t) :
    (m.started.filter (job.occupies t)).length ≤
      (m.running.filter fun s => job.isNonLocal s.node).length := by
  have hnodup : (m.started.filter (job.occupies t)).Nodup := (List.Nodup.of_map _ h.tracked.nodup).filter _
  apply (hnodup.subperm ?_).length_le
  intro s hs
  obtain ⟨hstarted, hoccupies⟩ := List.mem_filter.1 hs
  simp only [occupies, Bool.and_eq_true, decide_eq_true_eq] at hoccupies
  exact List.mem_filter.2 ⟨(h.running_iff s).2 ⟨hstarted, by omega⟩, hoccupies.1.1⟩

theorem Timely.begin (h : Timely job m) (hbuilt : job.circuit.Built) {n length : Nat} {g : Gate}
    {binding : Option Nat} {pool : Pool} (hn : n ∈ job.waiting m) (hgate : job.circuit.gate? n = some g)
    (hchannel : job.hasChannel m g = true)
    (hengage : engage? m.pool g m.clock = some (length, binding, pool)) :
    Timely job (begin m ⟨n, m.clock, m.clock + length, binding⟩ pool) := by
  obtain ⟨hlt, hready, hnew⟩ := mem_waiting.1 hn
  have hpos := hbuilt.cycles_pos hgate
  have hfits : Start.Fits ⟨n, m.clock, m.clock + length, binding⟩ g := engage?_fits hpos hengage
  obtain ⟨hlength, hcycles⟩ := hfits.bounds hpos
  generalize hs : (⟨n, m.clock, m.clock + length, binding⟩ : Start) = s at *
  obtain ⟨hnode, hstart⟩ : s.node = n ∧ s.start = m.clock := by rw [← hs]; exact ⟨rfl, rfl⟩
  have hmem : ∀ r, r ∈ (Job.begin m s pool).started ↔ r ∈ m.started ∨ r = s := by simp [Job.begin]
  refine ⟨h.tracked.begin (hnode ▸ hlt) (hnode ▸ hnew) ?_ pool, ?_, ?_, ?_, ?_, ?_, ?_⟩
  · rw [hnode, hbuilt.cyclesOf_eq hgate]
    omega
  · intro r hr
    rcases (hmem r).1 hr with hr | rfl
    · exact h.begun r hr
    · exact hstart.le
  · intro r
    have hclock : (Job.begin m s pool).clock = m.clock := rfl
    have hrunning : r ∈ (Job.begin m s pool).running ↔ r ∈ m.running ∨ r = s := by simp [Job.begin]
    rw [hrunning, hmem, h.running_iff, or_and_right, hclock]
    apply or_congr_right
    exact ⟨fun heq => ⟨heq, by rw [heq]; omega⟩, And.left⟩
  · intro r hr
    rcases (hmem r).1 hr with hr | rfl
    · exact h.timed r hr
    · exact ⟨g, hnode ▸ hgate, hfits⟩
  · intro k hk
    obtain ⟨r, hr, hrest⟩ := h.ended k hk
    exact ⟨r, (hmem r).2 (.inl hr), hrest⟩
  · -- what the new gate depends on has ended by now
    intro r hr p hp
    rcases (hmem r).1 hr with hr | rfl
    · obtain ⟨e, he, hrest⟩ := h.ordered r hr p hp
      exact ⟨e, (hmem e).2 (.inl he), hrest⟩
    · obtain ⟨e, he, hep, hend⟩ := h.ended p (hready p (hnode ▸ hp))
      exact ⟨e, (hmem e).2 (.inl he), hep, hstart ▸ hend⟩
  · intro t
    show ((m.started ++ [s]).filter (job.occupies t)).length ≤ job.channels
    rw [List.filter_append, List.length_append]
    by_cases hoccupies : job.occupies t s = true
    · -- the new gate is counted, so it found a channel free
      have hnonLocal : job.isNonLocal n = true ∧ m.clock ≤ t := by
        simp only [occupies, Bool.and_eq_true, decide_eq_true_eq] at hoccupies
        exact ⟨hnode ▸ hoccupies.1.1, hstart ▸ hoccupies.1.2⟩
      have hfree : (m.running.filter fun s => job.isNonLocal s.node).length < job.channels := by
        have hkind : g.isNonLocal = true := by simpa [isNonLocal, hgate] using hnonLocal.1
        simpa [hasChannel, hkind] using hchannel
      have hload := h.load_le_running hnonLocal.2
      simp only [List.filter_cons, hoccupies, if_true, List.filter_nil, List.length_singleton]
      omega
    · simp only [List.filter_cons, hoccupies, Bool.false_eq_true, if_false, List.filter_nil,
        List.length_nil, Nat.add_zero]
      exact h.load_le t

theorem nextDue_spec {t : Nat} {due : List Start} (h : nextDue m = (t, due)) (hsome : due ≠ []) :
    (∃ s ∈ m.running, s.finish = t) ∧ (∀ s ∈ m.running, t ≤ s.finish) ∧
      due = sortBy (fun a b => a.node ≤ b.node) (m.running.filter fun s => s.finish == t) := by
  have hrunning : m.running.map Start.finish ≠ [] := by
    intro hnil
    rw [List.map_eq_nil_iff] at hnil
    apply hsome
    show (t, due).2 = []
    rw [← h, nextDue, hnil]
    rfl
  obtain ⟨first, hfirst⟩ := exists_min? hrunning
  obtain ⟨hmem, hle⟩ := List.min?_eq_some_iff.1 hfirst
  simp only [nextDue, hfirst, Option.getD_some, Prod.mk.injEq] at h
  obtain ⟨rfl, hdue⟩ := h
  exact ⟨List.mem_map.1 hmem, fun s hs => hle s.finish (List.mem_map_of_mem hs), hdue.symm⟩

theorem Timely.complete (h : Timely job m) {t : Nat} {due : List Start} (hdue : nextDue m = (t, due))
    (hsome : due ≠ []) (pool : Pool) :
    Timely job ⟨t, pool, m.started, m.running.filter fun r => r.finish != t,
      m.finished ++ due.map Start.node⟩ := by
  obtain ⟨⟨s, hs, hst⟩, hfirst, rfl⟩ := nextDue_spec hdue hsome
  have hclock : m.clock < t := hst ▸ ((h.running_iff s).1 hs).2
  refine ⟨h.tracked.complete pool ⟨s, hs, hst⟩, ?_, ?_, h.timed, ?_, h.ordered, h.load_le⟩
  · intro r hr
    exact (h.begun r hr).trans hclock.le
  · intro r
    simp only [List.mem_filter, bne_iff_ne, h.running_iff]
    constructor
    · rintro ⟨hr, hne⟩
      exact ⟨hr.1, lt_of_le_of_ne (hfirst r ((h.running_iff r).2 hr)) hne.symm⟩
    · rintro ⟨hr, hlater⟩
      exact ⟨⟨hr, hclock.trans hlater⟩, hlater.ne'⟩
  · intro n hn
    rcases List.mem_append.1 hn with hn | hn
    · obtain ⟨r, hr, hrn, hend⟩ := h.ended n hn
      exact ⟨r, hr, hrn, hend.trans hclock.le⟩
    · obtain ⟨r, hr, rfl⟩ := List.mem_map.1 hn
      obtain ⟨hrunning, hend⟩ := List.mem_filter.1 (mem_sortBy.1 hr)
      exact ⟨r, ((h.running_iff r).1 hrunning).1, rfl, (beq_iff_eq.1 hend).le⟩

theorem Timely.reaches (h : Timely job m) (hbuilt : job.circuit.Built) (hreach : Reaches job m m') :
    Timely job m' := by
  induction hreach with
  | refl => exact h
  | tail _ hevent ih =>
      cases hevent with
      | start hn hgate hchannel hengage => exact ih.begin hbuilt hn hgate hchannel hengage
      | complete hdue hsome => exact ih.complete hdue hsome _

theorem Tracked.started_perm (h : Tracked job m) (hsize : job.circuit.size ≤ m.finished.length) :
    (m.started.map Start.node).Perm (List.range job.circuit.size) := by
  have hsub : m.started.map Start.node ⊆ List.range job.circuit.size := by
    intro n hn
    obtain ⟨s, hs, rfl⟩ := List.mem_map.1 hn
    exact List.mem_range.2 (h.lt_size s hs)
  apply (h.nodup.subperm hsub).perm_of_length_le
  have hlength := h.split.length_eq
  rw [List.length_append] at hlength
  rw [List.length_range]
  omega

theorem Tracked.startOf?_eq (h : Tracked job m) {s : Start} (hs : s ∈ m.started) :
    startOf? m s.node = some s := by
  obtain ⟨r, hr⟩ : ∃ r, startOf? m s.node = some r :=
    Option.isSome_iff_exists.1 (List.find?_isSome.2 ⟨s, hs, beq_self_eq_true _⟩)
  have hnode : r.node = s.node := by simpa using List.find?_some hr
  rw [hr, List.inj_on_of_nodup_map h.nodup (List.mem_of_find?_eq_some hr) hs hnode]

end Job

namespace Schedule

def runsAt (s : Schedule) (t n : Nat) : Bool :=
  (s.start? n).any (· ≤ t) && (s.finish? n).any (t < ·)

def load (s : Schedule) (c : Circuit) (t : Nat) : Nat :=
  ((List.range c.size).filter fun n => (c.gate? n).any Gate.isNonLocal && s.runsAt t n).length

/-- A schedule for a circuit within a budget of channels. No budget counts as one channel. -/
structure Valid (s : Schedule) (c : Circuit) (budget : Nat) : Prop where
  starts_length : s.starts.length = c.size
  ends_length : s.ends.length = c.size
  timed : ∀ n g, c.gate? n = some g → ∃ start finish,
    s.start? n = some start ∧ s.finish? n = some finish ∧ Start.Fits ⟨n, start, finish, s.binding? n⟩ g
  ordered : ∀ n, ∀ p ∈ c.dependencies n, ∃ finish start,
    s.finish? p = some finish ∧ s.start? n = some start ∧ finish ≤ start
  layered : ∀ n node, c.node? n = some node → ∃ start, s.start? n = some start ∧ node.layer ≤ start
  load_le : ∀ t, s.load c t ≤ s.channels
  channels_le : s.channels ≤ max budget 1
  layers_length : s.layers.length = s.cycles
  layers_nodup : ∀ layer ∈ s.layers, layer.Nodup
  mem_layers : ∀ t n, n ∈ s.layers[t]?.getD [] ↔ s.start? n = some t
  finish_le : ∀ n finish, s.finish? n = some finish → finish ≤ s.cycles
  cycles_eq : if c.size = 0 then s.cycles = 0 else ∃ n, s.finish? n = some s.cycles

end Schedule

namespace Job

variable {job : Job} {m : Moment}

theorem Tracked.row_eq (h : Tracked job m) {s : Start} (hs : s ∈ m.started) :
    (job.scheduleOf m).start? s.node = some s.start ∧
      (job.scheduleOf m).finish? s.node = some s.finish ∧
      (job.scheduleOf m).binding? s.node = s.binding := by
  have hlt := h.lt_size s hs
  have hrow : (startOf? m s.node).getD ⟨s.node, 0, 0, none⟩ = s := by rw [h.startOf?_eq hs]; rfl
  simp [scheduleOf, Schedule.start?, Schedule.finish?, Schedule.binding?, hlt, hrow]

/-- Once all gates are finished, each was started. -/
theorem Tracked.exists_started (h : Tracked job m) (hsize : job.circuit.size ≤ m.finished.length) {n : Nat}
    (hn : n < job.circuit.size) : ∃ s ∈ m.started, s.node = n :=
  List.mem_map.1 ((h.started_perm hsize).mem_iff.2 (List.mem_range.2 hn))

theorem Tracked.start?_eq_some_iff (h : Tracked job m) (hsize : job.circuit.size ≤ m.finished.length)
    {n t : Nat} : (job.scheduleOf m).start? n = some t ↔ ∃ s ∈ m.started, s.node = n ∧ s.start = t := by
  constructor
  · intro hstart
    have hn : n < job.circuit.size := by
      simpa [scheduleOf] using (List.getElem?_eq_some_iff.1 hstart).1
    obtain ⟨s, hs, rfl⟩ := h.exists_started hsize hn
    exact ⟨s, hs, rfl, Option.some.inj ((h.row_eq hs).1.symm.trans hstart)⟩
  · rintro ⟨s, hs, rfl, rfl⟩
    exact (h.row_eq hs).1

theorem Tracked.finish?_eq_some_iff (h : Tracked job m) (hsize : job.circuit.size ≤ m.finished.length)
    {n t : Nat} : (job.scheduleOf m).finish? n = some t ↔ ∃ s ∈ m.started, s.node = n ∧ s.finish = t := by
  constructor
  · intro hfinish
    have hn : n < job.circuit.size := by
      simpa [scheduleOf] using (List.getElem?_eq_some_iff.1 hfinish).1
    obtain ⟨s, hs, rfl⟩ := h.exists_started hsize hn
    exact ⟨s, hs, rfl, Option.some.inj ((h.row_eq hs).2.1.symm.trans hfinish)⟩
  · rintro ⟨s, hs, rfl, rfl⟩
    exact (h.row_eq hs).2.1

theorem Tracked.binding?_eq_some_iff (h : Tracked job m) (hsize : job.circuit.size ≤ m.finished.length)
    {n handle : Nat} : (job.scheduleOf m).binding? n = some handle ↔
      ∃ s ∈ m.started, s.node = n ∧ s.binding = some handle := by
  constructor
  · intro hbinding
    have hn : n < job.circuit.size := by
      simpa [scheduleOf] using (List.getElem?_eq_some_iff.1 (Option.join_eq_some_iff.1 hbinding)).1
    obtain ⟨s, hs, rfl⟩ := h.exists_started hsize hn
    exact ⟨s, hs, rfl, (h.row_eq hs).2.2.symm.trans hbinding⟩
  · rintro ⟨s, hs, rfl, hbinding⟩
    exact (h.row_eq hs).2.2.trans hbinding

theorem Tracked.finish_le_cycles (h : Tracked job m) {s : Start} (hs : s ∈ m.started) :
    s.finish ≤ (job.scheduleOf m).cycles :=
  List.le_max?_getD_of_mem (List.mem_of_getElem? (h.row_eq hs).2.1)

/-- The layer of a gate is a lower bound on its start, since each layer above it takes a cycle. -/
theorem Timely.layer_le (h : Timely job m) (hbuilt : job.circuit.Built) {s : Start} {node : Node}
    (hs : s ∈ m.started) (hnode : job.circuit.node? s.node = some node) : node.layer ≤ s.start := by
  induction hn : s.node using Nat.strong_induction_on generalizing s node with
  | _ n ih =>
      subst hn
      rw [hbuilt.layer_eq hnode]
      apply max?_getD_le
      intro bound hbound
      obtain ⟨p, hp, rfl⟩ := List.mem_map.1 hbound
      have hdependency : p ∈ job.circuit.dependencies s.node := by
        rw [Circuit.dependencies, hnode]
        exact hp
      obtain ⟨r, hr, rfl, hend⟩ := h.ordered s hs p hdependency
      obtain ⟨g, hgate, hfits⟩ := h.timed r hr
      obtain ⟨earlier, hearlier, rfl⟩ := Circuit.gate?_eq_some_iff.1 hgate
      have hlayer : earlier.layer ≤ r.start :=
        ih r.node (hbuilt.dependencies_lt hnode hp) hr hearlier rfl
      have hlength := (hfits.bounds (hbuilt.cycles_pos hgate)).1
      simp only [hearlier, Option.map_some, Option.getD_some]
      omega

theorem Timely.load_scheduleOf (h : Timely job m) (hsize : job.circuit.size ≤ m.finished.length) (t : Nat) :
    (job.scheduleOf m).load job.circuit t = (m.started.filter (job.occupies t)).length := by
  rw [Schedule.load, ← ((h.tracked.started_perm hsize).filter _).length_eq, List.filter_map,
    List.length_map]
  congr 1
  apply List.filter_congr
  intro s hs
  obtain ⟨hstart, hfinish, -⟩ := h.tracked.row_eq hs
  obtain ⟨g, hgate, -⟩ := h.timed s hs
  simp [Schedule.runsAt, occupies, isNonLocal, hstart, hfinish, hgate, Bool.and_assoc]

theorem Timely.valid (h : Timely job m) (hbuilt : job.circuit.Built)
    (hsize : job.circuit.size ≤ m.finished.length) {budget : Nat} (hbudget : job.channels ≤ max budget 1) :
    (job.scheduleOf m).Valid job.circuit budget := by
  have hstarts : ∀ p ∈ m.started.map fun s => (s.node, s.start), p.2 < (job.scheduleOf m).cycles := by
    intro p hp
    obtain ⟨s, hs, rfl⟩ := List.mem_map.1 hp
    obtain ⟨g, hgate, hfits⟩ := h.timed s hs
    have hle := h.tracked.finish_le_cycles hs
    exact (hfits.bounds (hbuilt.cycles_pos hgate)).1.trans_le hle
  refine ⟨by simp [scheduleOf], by simp [scheduleOf], ?_, ?_, ?_, ?_, hbudget, by simp [scheduleOf], ?_, ?_,
    ?_, ?_⟩
  · intro n g hgate
    obtain ⟨node, hnode, -⟩ := Circuit.gate?_eq_some_iff.1 hgate
    obtain ⟨s, hs, rfl⟩ := h.tracked.exists_started hsize (Circuit.node?_lt hnode)
    obtain ⟨hstart, hfinish, hbinding⟩ := h.tracked.row_eq hs
    obtain ⟨g', hgate', hfits⟩ := h.timed s hs
    obtain rfl : g' = g := Option.some.inj (hgate'.symm.trans hgate)
    refine ⟨s.start, s.finish, hstart, hfinish, ?_⟩
    rw [hbinding]
    exact hfits
  · intro n p hp
    have hn : n < job.circuit.size := by
      cases hnode : job.circuit.node? n with
      | none => simp [Circuit.dependencies, hnode] at hp
      | some node => exact Circuit.node?_lt hnode
    obtain ⟨s, hs, rfl⟩ := h.tracked.exists_started hsize hn
    obtain ⟨r, hr, rfl, hend⟩ := h.ordered s hs p hp
    exact ⟨r.finish, s.start, (h.tracked.row_eq hr).2.1, (h.tracked.row_eq hs).1, hend⟩
  · intro n node hnode
    obtain ⟨s, hs, rfl⟩ := h.tracked.exists_started hsize (Circuit.node?_lt hnode)
    exact ⟨s.start, (h.tracked.row_eq hs).1, h.layer_le hbuilt hs hnode⟩
  · intro t
    rw [h.load_scheduleOf hsize]
    exact h.load_le t
  · intro layer hlayer
    refine nodup_of_mem_layersOf ?_ hlayer
    simpa [Function.comp_def] using h.tracked.nodup
  · intro t n
    rw [h.tracked.start?_eq_some_iff hsize]
    exact (mem_layersOf hstarts).trans (by simp)
  · intro n finish hfinish
    obtain ⟨s, hs, -, rfl⟩ := (h.tracked.finish?_eq_some_iff hsize).1 hfinish
    exact h.tracked.finish_le_cycles hs
  · split
    · next hzero => simp [scheduleOf, hzero]
    · next hsome =>
        have hends : (job.scheduleOf m).ends ≠ [] := by
          intro hnil
          apply hsome
          simpa [scheduleOf] using hnil
        obtain ⟨n, hn⟩ := List.mem_iff_getElem?.1 (max?_getD_mem hends)
        exact ⟨n, hn⟩

end Job

/-- Every schedule of a circuit is valid, whatever the pool of factories and the budget. -/
theorem ofCircuit_valid {c : Circuit} {pool : Pool} {budget : Nat} {s : Schedule} (hbuilt : c.Built)
    (h : Schedule.ofCircuit c pool budget = .ok s) : s.Valid c budget := by
  obtain ⟨slacks, channels, hchannels, hsimulate⟩ := Schedule.exists_simulate_of_ofCircuit h
  obtain ⟨m, hreach, hsize, rfl⟩ := Job.reaches_of_simulate hsimulate
  exact ((Job.timely_start _ pool).reaches hbuilt hreach).valid hbuilt hsize hchannels

namespace WarmFactory

/-- A production round that comes after its factory was idle for a cycle, and gates that share a channel. -/
def circuit : Circuit :=
  ((((Circuit.empty.append (.resetOf (.factory "T" 0))).append (.production (.factory "T" 0) 5)).append
    (.joint "cx" [.factory "T" 0, .register "a"] 2)).append
    (.joint "cx" [.register "b", .register "c"] 3)).append (.joint "cx" [.register "a", .register "c"] 1)

def pool : Pool := ⟨[⟨0, "T", ⟨0, 0⟩, 4, 0, .free⟩]⟩

def schedule : Schedule where
  cycles := 8
  channels := 1
  layers := [[0, 3], [1], [], [], [], [2], [], [4]]
  starts := [0, 1, 5, 0, 7]
  ends := [1, 5, 7, 3, 8]
  bindings := [none, some 0, none, none, none]

theorem built_circuit : circuit.Built :=
  ((((Circuit.Built.empty.extend (by decide)).extend (by decide)).extend (by decide)).extend (by decide)).extend
    (by decide)

end WarmFactory

theorem warmFactory_valid : WarmFactory.circuit.Built ∧
    Schedule.ofCircuit WarmFactory.circuit WarmFactory.pool 0 = .ok WarmFactory.schedule ∧
    WarmFactory.schedule.Valid WarmFactory.circuit 0 := by
  have hschedule : Schedule.ofCircuit WarmFactory.circuit WarmFactory.pool 0 =
      .ok WarmFactory.schedule := by
    apply Outcome.settle_eq_ok_ok_iff.1
    decide +kernel
  exact ⟨WarmFactory.built_circuit, hschedule, ofCircuit_valid WarmFactory.built_circuit hschedule⟩

end SurfaceFabric
