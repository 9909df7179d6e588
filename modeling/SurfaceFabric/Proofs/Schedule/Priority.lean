import SurfaceFabric.Proofs.Schedule.Validity

/-!
Which gates go first. In a circuit without factories a gate that waits lacks nothing but a channel, so a local gate
starts as soon as all it depends on has ended, and any other gate waits only while all channels are taken. The gates
that wait are offered a start by slack and number, and once a gate has found no channel there is none in this round for
those after it. So whatever starts while a gate waits comes before it in this order.
-/

namespace SurfaceFabric

/-- The order in which gates are offered a start: by slack, and by number among equals. -/
def Sooner (slacks : List Nat) (a b : Nat) : Prop :=
  slacks[a]?.getD 0 < slacks[b]?.getD 0 ∨ slacks[a]?.getD 0 = slacks[b]?.getD 0 ∧ a < b

instance (slacks : List Nat) (a b : Nat) : Decidable (Sooner slacks a b) := inferInstanceAs (Decidable (_ ∨ _))

theorem Sooner.trans {slacks : List Nat} {a b c : Nat} (hab : Sooner slacks a b) (hbc : Sooner slacks b c) :
    Sooner slacks a c := by
  unfold Sooner at *
  omega

namespace Job

variable {job : Job} {m m' next : Moment} {started new : List Start} {nodes : List Nat} {n r t : Nat}

theorem waiting_pairwise (job : Job) (m : Moment) : (job.waiting m).Pairwise (Sooner job.slacks) := by
  refine pairwise_sortBy Sooner.trans ((List.pairwise_lt_range.filter _).imp ?_)
  intro a b hlt
  by_cases hle : job.slack a ≤ job.slack b
  · rw [if_pos (decide_eq_true hle)]
    exact (Nat.lt_or_eq_of_le hle).imp_right fun heq => ⟨heq, hlt⟩
  · rw [if_neg (by simpa using hle)]
    exact .inl (Nat.lt_of_not_le hle)

def busy (job : Job) (m : Moment) : Nat := (m.running.filter fun s => job.isNonLocal s.node).length

theorem hasChannel_eq_false_iff {g : Gate} (hgate : job.circuit.gate? n = some g) :
    job.hasChannel m g = false ↔ job.isNonLocal n = true ∧ job.channels ≤ job.busy m := by
  rw [hasChannel, Bool.or_eq_false_iff, Bool.not_eq_false', decide_eq_false_iff_not, Nat.not_lt]
  simp only [busy, isNonLocal, hgate, Option.map_some, Option.getD_some]

theorem engage?_ne_none (hplain : job.circuit.Plain) {g : Gate} (hgate : job.circuit.gate? n = some g)
    (pool : Pool) : engage? pool g t ≠ none := by
  rw [engage?, Gate.factoryOperand?_eq_none (hplain n g hgate)]
  exact Option.some_ne_none _

/-- What offers to gates in order come to: the new starts, and why the gates left over did not start. -/
structure Batch (job : Job) (nodes : List Nat) (m : Moment) (new : List Start) (m' : Moment) : Prop where
  clock_eq : m'.clock = m.clock
  started_eq : m'.started = m.started ++ new
  running_eq : m'.running = m.running ++ new
  mem : ∀ s ∈ new, s.node ∈ nodes ∧ s.start = m.clock
  full : job.channels ≤ job.busy m → ∀ s ∈ new, job.isNonLocal s.node = false
  left : ∀ n ∈ nodes, (∃ s ∈ new, s.node = n) ∨ job.isNonLocal n = true ∧ job.channels ≤ job.busy m' ∧
    ∀ s ∈ new, job.isNonLocal s.node = true → Sooner job.slacks s.node n

namespace Batch

theorem busy_le (h : Batch job nodes m new m') : job.busy m ≤ job.busy m' := by
  rw [busy, busy, h.running_eq, List.filter_append, List.length_append]
  exact Nat.le_add_right _ _

/-- A gate that finds no channel. Those after it find none either, unless they are local. -/
theorem refuse (h : Batch job nodes m new m') (hkind : job.isNonLocal n = true)
    (hfull : job.channels ≤ job.busy m) : Batch job (n :: nodes) m new m' := by
  refine ⟨h.clock_eq, h.started_eq, h.running_eq, fun s hs => ?_, h.full, ?_⟩
  · exact ⟨List.mem_cons_of_mem _ (h.mem s hs).1, (h.mem s hs).2⟩
  · refine List.forall_mem_cons.2 ⟨.inr ⟨hkind, hfull.trans h.busy_le, fun s hs hnonLocal => ?_⟩, h.left⟩
    rw [h.full hfull s hs] at hnonLocal
    cases hnonLocal

/-- A gate that starts comes before those that are offered a start after it. -/
theorem begin {s : Start} {pool : Pool} (h : Batch job nodes (Job.begin m s pool) new m')
    (hfirst : ∀ k ∈ nodes, Sooner job.slacks s.node k) (hstart : s.start = m.clock)
    (hchannel : job.isNonLocal s.node = true → job.busy m < job.channels) :
    Batch job (s.node :: nodes) m (s :: new) m' := by
  refine ⟨h.clock_eq, ?_, ?_, ?_, ?_, ?_⟩
  · rw [h.started_eq, Job.begin, List.append_assoc, List.singleton_append]
  · rw [h.running_eq, Job.begin, List.append_assoc, List.singleton_append]
  · refine List.forall_mem_cons.2 ⟨⟨List.mem_cons_self, hstart⟩, fun r hr => ?_⟩
    exact ⟨List.mem_cons_of_mem _ (h.mem r hr).1, (h.mem r hr).2⟩
  · intro hfull
    have hkind : job.isNonLocal s.node = false :=
      Bool.eq_false_of_not_eq_true fun hkind => Nat.not_lt.2 hfull (hchannel hkind)
    refine List.forall_mem_cons.2 ⟨hkind, h.full ?_⟩
    simpa [busy, Job.begin, hkind] using hfull
  · refine List.forall_mem_cons.2 ⟨.inl ⟨s, List.mem_cons_self, rfl⟩, fun k hk => ?_⟩
    obtain ⟨r, hr, hnode⟩ | ⟨hkind, hfull, hsooner⟩ := h.left k hk
    · exact .inl ⟨r, List.mem_cons_of_mem _ hr, hnode⟩
    · exact .inr ⟨hkind, hfull, List.forall_mem_cons.2 ⟨fun _ => hfirst k hk, hsooner⟩⟩

end Batch

/-- Offers to gates in order. The induction is on the gates still to be offered a start, and what was true of those
before them stays so: the channels only fill up. -/
theorem exists_batch (hplain : job.circuit.Plain) (hlt : ∀ n ∈ nodes, n < job.circuit.size)
    (hsorted : nodes.Pairwise (Sooner job.slacks)) (h : nodes.foldlM job.offer m = .ok m') :
    ∃ new, Batch job nodes m new m' := by
  induction nodes generalizing m with
  | nil =>
      obtain rfl := pure_eq_ok_iff.1 h
      exact ⟨[], rfl, by simp, by simp, by simp, by simp, by simp⟩
  | cons n rest ih =>
      obtain ⟨hn, hlt⟩ := List.forall_mem_cons.1 hlt
      obtain ⟨hfirst, hsorted⟩ := List.pairwise_cons.1 hsorted
      obtain ⟨g, hgate⟩ := Circuit.gate?_isSome hn
      rw [List.foldlM_cons] at h
      obtain ⟨next, hoffer, hoffers⟩ := bind_eq_ok_iff.1 h
      obtain ⟨new, hbatch⟩ := ih hlt hsorted hoffers
      obtain ⟨rfl, hnone⟩ | ⟨length, binding, pool, hchannel, -, rfl⟩ := offer_eq_ok hgate hoffer
      · have hchannel : job.hasChannel next g = false := by
          apply Bool.eq_false_of_not_eq_true
          exact fun hchannel => engage?_ne_none hplain hgate _ (hnone hchannel)
        obtain ⟨hkind, hfull⟩ := (hasChannel_eq_false_iff hgate).1 hchannel
        exact ⟨new, hbatch.refuse hkind hfull⟩
      · refine ⟨_, hbatch.begin hfirst rfl fun hkind => Nat.lt_of_not_le fun hfull => ?_⟩
        rw [(hasChannel_eq_false_iff hgate).2 ⟨hkind, hfull⟩] at hchannel
        cases hchannel

/-- The tick at which all that a gate depends on has ended. -/
structure ReadyFrom (c : Circuit) (started : List Start) (n r : Nat) : Prop where
  ended : ∀ p ∈ c.dependencies n, ∃ e ∈ started, e.node = p ∧ e.finish ≤ r
  last : r = 0 ∨ ∃ p ∈ c.dependencies n, ∃ e ∈ started, e.node = p ∧ e.finish = r

theorem ReadyFrom.append {c : Circuit} (h : ReadyFrom c started n r) (new : List Start) :
    ReadyFrom c (started ++ new) n r := by
  refine ⟨fun p hp => ?_, h.last.imp_right ?_⟩
  · obtain ⟨e, he, hrest⟩ := h.ended p hp
    exact ⟨e, List.mem_append_left _ he, hrest⟩
  · rintro ⟨p, hp, e, he, hrest⟩
    exact ⟨p, hp, e, List.mem_append_left _ he, hrest⟩

/-- A gate that is ready from one tick on has reason to wait until another: it needs a channel, all are taken, and
what starts meanwhile comes before it. -/
structure Waits (job : Job) (started : List Start) (n r t : Nat) : Prop where
  le : r ≤ t
  nonLocal : r < t → job.isNonLocal n = true
  full : ∀ tick, r ≤ tick → tick < t → (started.filter (job.occupies tick)).length = job.channels
  sooner : ∀ q ∈ started, job.isNonLocal q.node = true → r ≤ q.start → q.start < t → Sooner job.slacks q.node n

theorem Waits.refl (job : Job) (started : List Start) (n t : Nat) : Waits job started n t t :=
  ⟨Nat.le_refl t, fun h => absurd h (Nat.lt_irrefl t), fun _ hle hlt => absurd hle (Nat.not_le.2 hlt),
    fun _ _ _ hle hlt => absurd hle (Nat.not_le.2 hlt)⟩

theorem Waits.append (h : Waits job started n r t) (hnew : ∀ s ∈ new, t ≤ s.start) :
    Waits job (started ++ new) n r t := by
  refine ⟨h.le, h.nonLocal, fun tick hle hlt => ?_, fun q hq hkind hle hlt => ?_⟩
  · have hnone : new.filter (job.occupies tick) = [] := by
      refine List.filter_eq_nil_iff.2 fun s hs hoccupies => ?_
      simp only [occupies, Bool.and_eq_true, decide_eq_true_eq] at hoccupies
      have := hnew s hs
      omega
    rw [List.filter_append, hnone, List.append_nil]
    exact h.full tick hle hlt
  · rcases List.mem_append.1 hq with hq | hq
    · exact h.sooner q hq hkind hle hlt
    · exact absurd hlt (Nat.not_lt.2 (hnew q hq))

/-- While nothing ends the channels in use stay in use. -/
theorem Timely.load_eq_channels (h : Timely job m) (hfull : job.channels ≤ job.busy m) {tick : Nat}
    (hclock : m.clock ≤ tick) (hrunning : ∀ s ∈ m.running, tick < s.finish) :
    (m.started.filter (job.occupies tick)).length = job.channels := by
  have hnodup : (m.running.filter fun s => job.isNonLocal s.node).Nodup := by
    refine List.Nodup.filter _ (List.Nodup.of_map Start.node ?_)
    exact (h.tracked.split.nodup_iff.2 h.tracked.nodup).of_append_right
  have hsub : (m.running.filter fun s => job.isNonLocal s.node) ⊆ m.started.filter (job.occupies tick) := by
    intro s hs
    obtain ⟨hs, hkind⟩ := List.mem_filter.1 hs
    have hstarted := ((h.running_iff s).1 hs).1
    have hbegun := (h.begun s hstarted).trans hclock
    refine List.mem_filter.2 ⟨hstarted, ?_⟩
    simp [occupies, hkind, hbegun, hrunning s hs]
  exact Nat.le_antisymm (h.load_le tick) (hfull.trans (hnodup.subperm hsub).length_le)

/-- Where a simulation stands before a round: no gate has waited, or waits, without a reason. -/
structure Fair (job : Job) (m : Moment) : Prop where
  earlier : ∀ s ∈ m.started, s.start < m.clock
  begun : ∀ s ∈ m.started, ∃ r, ReadyFrom job.circuit m.started s.node r ∧ Waits job m.started s.node r s.start
  waiting : ∀ n ∈ job.waiting m, ∃ r, ReadyFrom job.circuit m.started n r ∧ Waits job m.started n r m.clock

namespace Fair

theorem start (job : Job) (pool : Pool) : Fair job ⟨0, pool, [], [], []⟩ := by
  refine ⟨by simp, by simp, fun n hn => ⟨0, ⟨fun p hp => ?_, .inl rfl⟩, .refl ..⟩⟩
  exact absurd ((mem_waiting.1 hn).2.1 p hp) List.not_mem_nil

section Round

variable (h : Fair job m) (hbatch : Batch job (job.waiting m) m new next)

include h hbatch in
theorem begun_offered : ∀ s ∈ next.started,
    ∃ r, ReadyFrom job.circuit next.started s.node r ∧ Waits job next.started s.node r s.start := by
  rw [hbatch.started_eq]
  intro s hs
  rcases List.mem_append.1 hs with hs | hs
  · obtain ⟨r, hready, hwaits⟩ := h.begun s hs
    refine ⟨r, hready.append new, hwaits.append fun q hq => ?_⟩
    rw [(hbatch.mem q hq).2]
    exact (h.earlier s hs).le
  · obtain ⟨hn, hstart⟩ := hbatch.mem s hs
    obtain ⟨r, hready, hwaits⟩ := h.waiting s.node hn
    rw [hstart]
    exact ⟨r, hready.append new, hwaits.append fun q hq => (hbatch.mem q hq).2.ge⟩

include h hbatch in
/-- A gate that is left over in a round has reason to wait for the next. -/
theorem waits_left (hnext : Timely job next) (hn : n ∈ job.waiting m) (hleft : ∀ s ∈ next.started, s.node ≠ n)
    (ht : next.clock < t) (hrunning : ∀ s ∈ next.running, t ≤ s.finish) :
    ∃ r, ReadyFrom job.circuit next.started n r ∧ Waits job next.started n r t := by
  obtain ⟨r, hready, hwaits⟩ := h.waiting n hn
  have hwaits' := hwaits.append fun q hq => (hbatch.mem q hq).2.ge
  rw [← hbatch.started_eq, ← hbatch.clock_eq] at hwaits'
  obtain ⟨s, hs, hnode⟩ | ⟨hkind, hfull, hsooner⟩ := hbatch.left n hn
  · refine absurd hnode (hleft s ?_)
    rw [hbatch.started_eq]
    exact List.mem_append_right _ hs
  · refine ⟨r, hbatch.started_eq ▸ hready.append new, hwaits'.le.trans ht.le, fun _ => hkind, ?_, ?_⟩
    · intro tick hle hlt
      rcases Nat.lt_or_ge tick next.clock with hpast | hnow
      · exact hwaits'.full tick hle hpast
      · exact hnext.load_eq_channels hfull hnow fun s hs => hlt.trans_le (hrunning s hs)
    · intro q hq hq' hle hlt
      rcases Nat.lt_or_ge q.start next.clock with hpast | hnow
      · exact hwaits'.sooner q hq hq' hle hpast
      · -- only the gates of this round started now
        rw [hbatch.started_eq] at hq
        rcases List.mem_append.1 hq with hq | hq
        · rw [hbatch.clock_eq] at hnow
          exact absurd (h.earlier q hq) (Nat.not_lt.2 hnow)
        · exact hsooner q hq hq'

end Round

/-- One round. A gate that waits after it either waited before, or became ready when the round ended. -/
theorem round (h : Fair job m) (htimely : Timely job m) (hbuilt : job.circuit.Built)
    (hplain : job.circuit.Plain) (hround : Round job m m') : Fair job m' := by
  obtain @⟨next, t, due, hoffers, hdue, hsome⟩ := hround
  obtain ⟨new, hbatch⟩ := exists_batch hplain (fun n hn => (mem_waiting.1 hn).1) (waiting_pairwise job m) hoffers
  obtain ⟨hreach, hfinished⟩ := reaches_of_offerAll hoffers
  have hnext := htimely.reaches hbuilt hreach
  have hlater := hnext.complete hdue hsome next.pool
  obtain ⟨⟨first, hfirst, hend⟩, hrunning, rfl⟩ := nextDue_spec hdue hsome
  have hclock : next.clock < t := hend ▸ ((hnext.running_iff first).1 hfirst).2
  have hbegun := h.begun_offered hbatch
  refine ⟨fun s hs => (hnext.begun s hs).trans_lt hclock, hbegun, fun n hn => ?_⟩
  show ∃ r, ReadyFrom job.circuit next.started n r ∧ Waits job next.started n r t
  obtain ⟨hlt, hready, hnew⟩ := mem_waiting.1 hn
  by_cases hwaited : n ∈ job.waiting m
  · exact h.waits_left hbatch hnext hwaited hnew hclock hrunning
  · -- something that the gate depends on has ended just now
    obtain ⟨p, hp, hunfinished⟩ : ∃ p ∈ job.circuit.dependencies n, p ∉ m.finished := by
      by_contra hnone
      refine hwaited (mem_waiting.2 ⟨hlt, fun p hp => ?_, fun s hs => hnew s ?_⟩)
      · exact by_contra fun hunfinished => hnone ⟨p, hp, hunfinished⟩
      · show s ∈ next.started
        rw [hbatch.started_eq]
        exact List.mem_append_left _ hs
    refine ⟨t, ⟨fun q hq => hlater.ended q (hready q hq), .inr ⟨p, hp, ?_⟩⟩, .refl ..⟩
    rcases List.mem_append.1 (hready p hp) with hold | hdue
    · exact absurd (hfinished ▸ hold) hunfinished
    · obtain ⟨e, he, hnode⟩ := List.mem_map.1 hdue
      obtain ⟨he, hfinish⟩ := List.mem_filter.1 (mem_sortBy.1 he)
      exact ⟨e, ((hnext.running_iff e).1 he).1, hnode, beq_iff_eq.1 hfinish⟩

theorem rounds (h : Fair job m) (htimely : Timely job m) (hbuilt : job.circuit.Built)
    (hplain : job.circuit.Plain) (hrounds : Rounds job m m') : Fair job m' := by
  induction hrounds with
  | refl => exact h
  | tail hrounds hround ih =>
      exact ih.round (htimely.reaches hbuilt (Rounds.reaches hrounds)) hbuilt hplain hround

end Fair

end Job

namespace Schedule

def readyAt (s : Schedule) (c : Circuit) (n : Nat) : Nat :=
  ((c.dependencies n).map fun p => (s.finish? p).getD 0).max?.getD 0

/-- A schedule that keeps no gate waiting without need. A local gate starts when it is ready. Any other may have to
wait, as long as all channels are taken and what starts comes before it by slack and number. -/
structure Greedy (s : Schedule) (c : Circuit) (slacks : List Nat) : Prop where
  local_start : ∀ n g, c.gate? n = some g → g.isNonLocal = false → s.start? n = some (s.readyAt c n)
  nonLocal_start : ∀ n g, c.gate? n = some g → g.isNonLocal = true →
    ∃ start, s.start? n = some start ∧ s.readyAt c n ≤ start ∧
      ∀ t, s.readyAt c n ≤ t → t < start → s.load c t = s.channels ∧
        ∀ k g', c.gate? k = some g' → g'.isNonLocal = true → s.start? k = some t → Sooner slacks k n

end Schedule

namespace Job

variable {job : Job} {m : Moment} {n r : Nat}

theorem Tracked.readyAt_eq (h : Tracked job m) (hready : ReadyFrom job.circuit m.started n r) :
    (job.scheduleOf m).readyAt job.circuit n = r := by
  have hfinish {p : Nat} {e : Start} (he : e ∈ m.started) (hnode : e.node = p) :
      ((job.scheduleOf m).finish? p).getD 0 = e.finish := by
    rw [← hnode, (h.row_eq he).2.1, Option.getD_some]
  apply Nat.le_antisymm
  · apply max?_getD_le
    simp only [List.forall_mem_map]
    intro p hp
    obtain ⟨e, he, hnode, hle⟩ := hready.ended p hp
    rwa [hfinish he hnode]
  · obtain rfl | ⟨p, hp, e, he, hnode, rfl⟩ := hready.last
    · exact Nat.zero_le _
    · rw [← hfinish he hnode]
      exact List.le_max?_getD_of_mem (List.mem_map_of_mem hp)

/-- What is fair at the end of a simulation is greedy as a schedule. -/
theorem Fair.greedy (h : Fair job m) (htimely : Timely job m) (hsize : job.circuit.size ≤ m.finished.length) :
    (job.scheduleOf m).Greedy job.circuit job.slacks := by
  have hkind {k : Nat} {g : Gate} (hgate : job.circuit.gate? k = some g) : job.isNonLocal k = g.isNonLocal := by
    rw [isNonLocal, hgate, Option.map_some, Option.getD_some]
  constructor
  · intro n g hgate hlocal
    obtain ⟨s, hs, rfl⟩ := htimely.tracked.exists_started hsize (Circuit.lt_size_of_gate? hgate)
    obtain ⟨r, hready, hwaits⟩ := h.begun s hs
    rw [htimely.tracked.readyAt_eq hready, (htimely.tracked.row_eq hs).1]
    congr 1
    -- a gate that waits is not local
    refine (Nat.eq_or_lt_of_le hwaits.le).elim Eq.symm fun hlt => ?_
    have hnonLocal := hwaits.nonLocal hlt
    rw [hkind hgate, hlocal] at hnonLocal
    cases hnonLocal
  · intro n g hgate _
    obtain ⟨s, hs, rfl⟩ := htimely.tracked.exists_started hsize (Circuit.lt_size_of_gate? hgate)
    obtain ⟨r, hready, hwaits⟩ := h.begun s hs
    rw [htimely.tracked.readyAt_eq hready]
    refine ⟨s.start, (htimely.tracked.row_eq hs).1, hwaits.le, fun t hle hlt => ⟨?_, ?_⟩⟩
    · rw [htimely.load_scheduleOf hsize]
      exact hwaits.full t hle hlt
    · intro k g' hgate' hnonLocal hstart
      obtain ⟨q, hq, rfl, rfl⟩ := (htimely.tracked.start?_eq_some_iff hsize).1 hstart
      exact hwaits.sooner q hq ((hkind hgate').trans hnonLocal) hle hlt

end Job

/-- A circuit without factories is scheduled greedily, with the slacks of its gates as priorities. -/
theorem ofCircuit_greedy {c : Circuit} {pool : Pool} {budget : Nat} {s : Schedule} (hbuilt : c.Built)
    (hplain : c.Plain) (h : Schedule.ofCircuit c pool budget = .ok s) :
    ∃ slacks, c.slacks = .ok slacks ∧ s.Greedy c slacks := by
  obtain ⟨slacks, channels, hslacks, -, hsimulate⟩ := Schedule.exists_job_of_ofCircuit h
  obtain ⟨m, hrounds, hsize, rfl⟩ := Job.rounds_of_simulate hsimulate
  have hstart := Job.timely_start ⟨c, slacks, channels⟩ pool
  have hfair := (Job.Fair.start _ pool).rounds hstart hbuilt hplain hrounds
  exact ⟨slacks, hslacks, hfair.greedy (hstart.reaches hbuilt hrounds.reaches) hsize⟩

namespace OneChannel

/-- Three gates that ask for the channel at once, and a local gate that makes the second of them urgent. -/
def circuit : Circuit :=
  (((Circuit.empty.append (.joint "cx" [.register "a", .register "b"] 2)).append
    (.joint "cx" [.register "c", .register "d"] 1)).append
    (.joint "cx" [.register "e", .register "f"] 1)).append (.single "h" (.register "c") 4)

def schedule : Schedule where
  cycles := 5
  channels := 1
  layers := [[1], [3, 0], [], [2], []]
  starts := [1, 0, 3, 1]
  ends := [3, 1, 4, 5]
  bindings := [none, none, none, none]

theorem built_circuit : circuit.Built :=
  (((Circuit.Built.empty.extend (by decide)).extend (by decide)).extend (by decide)).extend (by decide)

end OneChannel

theorem oneChannel_greedy : OneChannel.circuit.Built ∧ OneChannel.circuit.Plain ∧
    Schedule.ofCircuit OneChannel.circuit .empty 1 = .ok OneChannel.schedule ∧
    OneChannel.schedule.readyAt OneChannel.circuit 2 = 0 ∧ OneChannel.schedule.start? 2 = some 3 ∧
    ∃ slacks, OneChannel.circuit.slacks = .ok slacks ∧ OneChannel.schedule.Greedy OneChannel.circuit slacks := by
  have hplain : OneChannel.circuit.Plain := by decide
  have hschedule : Schedule.ofCircuit OneChannel.circuit .empty 1 = .ok OneChannel.schedule := by
    apply Outcome.settle_eq_ok_ok_iff.1
    decide +kernel
  exact ⟨OneChannel.built_circuit, hplain, hschedule, by decide, rfl,
    ofCircuit_greedy OneChannel.built_circuit hplain hschedule⟩

end SurfaceFabric
