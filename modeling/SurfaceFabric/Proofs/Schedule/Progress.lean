import SurfaceFabric.Proofs.Circuit.Slack
import SurfaceFabric.Schedule.Fastest

/-!
Circuits without factories can always be scheduled. While a gate is unfinished, some gate runs or the
first unfinished one can start, as all it depends on is finished and a channel is free. Time never runs
past the cycles of the gates started, so it stays within the word if the cycles of all gates do.
-/

namespace SurfaceFabric

theorem Gate.factoryOperand?_eq_none {g : Gate} (h : ∀ s ∈ g.operands, s.isFactory = false) :
    g.factoryOperand? = none := by
  rw [factoryOperand?, List.find?_eq_none]
  intro s hs hfactory
  rw [h s hs] at hfactory
  cases hfactory

namespace Job

variable {job : Job} {m m' : Moment}

def spent (job : Job) (m : Moment) : Nat := ((m.started.map Start.node).map job.circuit.cyclesOf).sum

/-- What a simulation knows about the gates: each started gate is running or finished, and time has not
run past the cycles of the gates started. -/
structure Tracked (job : Job) (m : Moment) : Prop where
  nodup : (m.started.map Start.node).Nodup
  lt_size : ∀ s ∈ m.started, s.node < job.circuit.size
  split : (m.finished ++ m.running.map Start.node).Perm (m.started.map Start.node)
  clock_le : m.clock ≤ job.spent m
  finish_le : ∀ s ∈ m.running, s.finish ≤ job.spent m

theorem Tracked.spent_le (h : Tracked job m) : job.spent m ≤ job.circuit.totalCycles := by
  refine Circuit.sum_cyclesOf_le h.nodup fun n hn => ?_
  obtain ⟨s, hs, rfl⟩ := List.mem_map.1 hn
  exact h.lt_size s hs

theorem mem_waiting {n : Nat} : n ∈ job.waiting m ↔ n < job.circuit.size ∧
    (∀ p ∈ job.circuit.dependencies n, p ∈ m.finished) ∧ ∀ s ∈ m.started, s.node ≠ n := by
  simp [waiting]

def begin (m : Moment) (s : Start) (pool : Pool) : Moment :=
  { m with pool := pool, started := m.started ++ [s], running := m.running ++ [s] }

theorem Tracked.begin (h : Tracked job m) {s : Start} (hn : s.node < job.circuit.size)
    (hnew : ∀ r ∈ m.started, r.node ≠ s.node)
    (hfinish : s.finish ≤ m.clock + job.circuit.cyclesOf s.node) (pool : Pool) :
    Tracked job (begin m s pool) := by
  have hspent : job.spent (Job.begin m s pool) =
      job.spent m + job.circuit.cyclesOf s.node := by
    simp [spent, Job.begin]
  have hclock := h.clock_le
  refine ⟨?_, ?_, ?_, ?_, ?_⟩
  · rw [Job.begin, List.map_append, List.nodup_append]
    refine ⟨h.nodup, by simp, ?_⟩
    intro a ha b hb
    obtain ⟨r, hr, rfl⟩ := List.mem_map.1 ha
    rw [List.map_singleton, List.mem_singleton] at hb
    rw [hb]
    exact hnew r hr
  · intro r hr
    rcases List.mem_append.1 hr with hr | hr
    · exact h.lt_size r hr
    · rw [List.mem_singleton.1 hr]
      exact hn
  · simp only [Job.begin, List.map_append, ← List.append_assoc]
    exact h.split.append_right _
  · rw [hspent]
    exact hclock.trans (Nat.le_add_right _ _)
  · intro r hr
    rw [hspent]
    rcases List.mem_append.1 hr with hr | hr
    · exact (h.finish_le r hr).trans (Nat.le_add_right _ _)
    · rw [List.mem_singleton.1 hr]
      exact hfinish.trans (Nat.add_le_add_right hclock _)

/-- A gate that takes its full time. -/
theorem Tracked.beginFull (h : Tracked job m) {n : Nat} (hn : n < job.circuit.size)
    (hnew : ∀ s ∈ m.started, s.node ≠ n) :
    Tracked job (Job.begin m ⟨n, m.clock, m.clock + job.circuit.cyclesOf n, none⟩ m.pool) :=
  h.begin hn hnew (Nat.le_refl _) m.pool

structure Feasible (job : Job) : Prop where
  built : job.circuit.Built
  plain : job.circuit.Plain
  channels_pos : 0 < job.channels
  fits : job.circuit.totalCycles ≤ Word.top

/-- A waiting gate starts if it finds a channel. -/
theorem Feasible.offer_eq (hjob : Feasible job) (h : Tracked job m) {n : Nat} {g : Gate}
    (hg : job.circuit.gate? n = some g) (hnew : ∀ s ∈ m.started, s.node ≠ n) :
    job.offer m n = .ok (if job.hasChannel m g then
      Job.begin m ⟨n, m.clock, m.clock + job.circuit.cyclesOf n, none⟩ m.pool else m) := by
  unfold offer
  rw [hg]
  dsimp only
  by_cases hchannel : job.hasChannel m g = true
  · have hn : n < job.circuit.size := by
      obtain ⟨node, hnode, -⟩ := Circuit.gate?_eq_some_iff.1 hg
      exact Circuit.node?_lt hnode
    have hbegun := h.beginFull hn hnew
    have hfit : m.clock + job.circuit.cyclesOf n ≤ Word.top :=
      (hbegun.finish_le _ (List.mem_append_right _ List.mem_cons_self)).trans
        (hbegun.spent_le.trans hjob.fits)
    have hengage : engage? m.pool g m.clock = some (job.circuit.cyclesOf n, none, m.pool) := by
      rw [engage?, Gate.factoryOperand?_eq_none (hjob.plain n g hg), hjob.built.cyclesOf_eq hg]
    rw [hchannel, hengage]
    simp only [Bool.not_true, Bool.false_eq_true, if_false, if_true]
    rw [show Word.add m.clock (job.circuit.cyclesOf n) = .ok (m.clock + job.circuit.cyclesOf n) from
      Word.add_eq_ok_iff.2 ⟨hfit, rfl⟩]
    rfl
  · rw [Bool.not_eq_true] at hchannel
    rw [hchannel]
    rfl

/-- Offering starts to gates in order: if a gate runs already or some gate is offered a start, then some
gate runs afterwards. -/
theorem Feasible.exists_offers (hjob : Feasible job) {nodes : List Nat} (h : Tracked job m)
    (hnodup : nodes.Nodup) (hlt : ∀ n ∈ nodes, n < job.circuit.size)
    (hnew : ∀ n ∈ nodes, ∀ s ∈ m.started, s.node ≠ n) :
    ∃ m', nodes.foldlM job.offer m = .ok m' ∧ Tracked job m' ∧ m'.finished = m.finished ∧
      (m.running ≠ [] ∨ nodes ≠ [] → m'.running ≠ []) := by
  induction nodes generalizing m with
  | nil => exact ⟨m, rfl, h, rfl, fun hrunning => hrunning.elim id fun hne => absurd rfl hne⟩
  | cons n rest ih =>
      obtain ⟨hfirst, hrest⟩ := List.nodup_cons.1 hnodup
      have hn := hlt n List.mem_cons_self
      have hnfresh := hnew n List.mem_cons_self
      obtain ⟨g, hg⟩ := Circuit.gate?_isSome hn
      have hoffer := hjob.offer_eq h hg hnfresh
      by_cases hchannel : job.hasChannel m g = true
      · rw [hchannel, if_pos rfl] at hoffer
        obtain ⟨m', hm', htracked, hfinished, hrunning⟩ := ih (h.beginFull hn hnfresh) hrest
          (fun k hk => hlt k (List.mem_cons_of_mem _ hk)) (by
            intro k hk s hs
            rcases List.mem_append.1 hs with hs | hs
            · exact hnew k (List.mem_cons_of_mem _ hk) s hs
            · rw [List.mem_singleton.1 hs]
              rintro rfl
              exact hfirst hk)
        refine ⟨m', ?_, htracked, hfinished, fun _ => hrunning (.inl (by simp [Job.begin]))⟩
        rw [List.foldlM_cons, hoffer]
        exact hm'
      · -- without a channel some gate is running
        rw [if_neg hchannel] at hoffer
        obtain ⟨m', hm', htracked, hfinished, hrunning⟩ := ih h hrest
          (fun k hk => hlt k (List.mem_cons_of_mem _ hk))
          (fun k hk => hnew k (List.mem_cons_of_mem _ hk))
        refine ⟨m', ?_, htracked, hfinished, fun _ => hrunning (.inl fun hnil => hchannel ?_)⟩
        · rw [List.foldlM_cons, hoffer]
          exact hm'
        · rw [hasChannel, hnil]
          simp [hjob.channels_pos]

/-- If nothing runs and not all gates are finished, then some gate is waiting. -/
theorem Tracked.exists_waiting (h : Tracked job m) (hbuilt : job.circuit.Built)
    (hrunning : m.running = []) (hsize : m.finished.length < job.circuit.size) :
    job.waiting m ≠ [] := by
  have hperm : m.finished.Perm (m.started.map Start.node) := by
    have := h.split
    rwa [hrunning, List.map_nil, List.append_nil] at this
  obtain ⟨n, hn, hunfinished, hready⟩ := hbuilt.exists_ready m.finished hsize
  refine List.ne_nil_of_mem (mem_waiting.2 ⟨hn, hready, fun s hs heq => ?_⟩)
  exact hunfinished (hperm.mem_iff.2 (List.mem_map.2 ⟨s, hs, heq⟩))

/-- The moment at which the next gates end. -/
theorem Tracked.complete (h : Tracked job m) (pool : Pool) {t : Nat}
    (ht : ∃ s ∈ m.running, s.finish = t) :
    Tracked job ⟨t, pool, m.started, m.running.filter fun r => r.finish != t,
      m.finished ++ (sortBy (fun a b => a.node ≤ b.node)
        (m.running.filter fun s => s.finish == t)).map Start.node⟩ := by
  refine ⟨h.nodup, h.lt_size, ?_, ?_, ?_⟩
  · refine List.Perm.trans ?_ h.split
    dsimp only
    rw [List.append_assoc, ← List.map_append]
    refine List.Perm.append_left _ (List.Perm.map _ ?_)
    refine ((sortBy_perm _ _).append_right _).trans ?_
    exact List.filter_append_perm _ _
  · obtain ⟨s, hs, rfl⟩ := ht
    exact h.finish_le s hs
  · intro s hs
    exact h.finish_le s (List.mem_of_mem_filter hs)

theorem Feasible.exists_simulateFrom (hjob : Feasible job) (h : Tracked job m) :
    ∃ m', job.simulateFrom m = .ok m' := by
  induction hleft : job.circuit.size - m.finished.length using Nat.strong_induction_on
    generalizing m with
  | _ left ih =>
      rw [simulateFrom]
      split
      · next hsize =>
          obtain ⟨next, hoffers, htracked, hfinished, hrunning⟩ := hjob.exists_offers h
            ((sortBy_perm _ _).nodup_iff.2 (List.nodup_range.filter _))
            (fun n hn => (mem_waiting.1 hn).1) (fun n hn => (mem_waiting.1 hn).2.2)
          have hsome : next.running ≠ [] := by
            refine hrunning ?_
            by_cases hnil : m.running = []
            · exact .inr (h.exists_waiting hjob.built hnil hsize)
            · exact .inl hnil
          rw [show job.offerAll m = .ok next from hoffers]
          obtain ⟨t, ht⟩ := exists_min? (l := next.running.map Start.finish) (by simpa using hsome)
          obtain ⟨s, hs, hst⟩ := List.mem_map.1 (List.min?_eq_some_iff.1 ht).1
          have hdue : s ∈ (nextDue next).2 := by
            simp [nextDue, ht, hs, hst]
          have hcomplete := htracked.complete next.pool ⟨s, hs, hst⟩
          dsimp only
          split
          · next hnil => rw [hnil] at hdue; cases hdue
          · next tick first due hnext =>
              have htick : tick = t ∧ first :: due = sortBy (fun a b => a.node ≤ b.node)
                  (next.running.filter fun s => s.finish == t) := by
                simp only [nextDue, ht, Option.getD_some, Prod.mk.injEq] at hnext
                exact ⟨hnext.1.symm, hnext.2.symm⟩
              obtain ⟨rfl, hsorted⟩ := htick
              refine ih _ ?_ ?_ rfl
              · simp only [List.map_cons, List.length_append, List.length_cons]
                omega
              · rw [hsorted, ← hfinished]
                exact ⟨hcomplete.nodup, hcomplete.lt_size, hcomplete.split, hcomplete.clock_le,
                  hcomplete.finish_le⟩
      · exact ⟨m, rfl⟩

theorem Feasible.exists_simulate (hjob : Feasible job) (pool : Pool) :
    ∃ s, job.simulate pool = .ok s := by
  have hstart : Tracked job ⟨0, pool, [], [], []⟩ := by
    constructor <;> simp
  obtain ⟨m, hm⟩ := hjob.exists_simulateFrom hstart
  exact ⟨job.scheduleOf m, by rw [simulate, hm]; rfl⟩

end Job

namespace Schedule

theorem exists_better (best s : Schedule) : ∃ kept, better (.ok best) (.ok s) = .ok kept := by
  unfold better
  dsimp only
  split <;> exact ⟨_, rfl⟩

/-- Trying more caps never loses a schedule. -/
theorem exists_foldlM_better {c : Circuit} {pool : Pool} {slacks : List Nat}
    (hcap : ∀ k, ∃ s, simulateCap c pool slacks (k + 1) = .ok (.ok s)) (ks : List Nat) (best : Schedule) :
    ∃ s, ks.foldlM (fun best k => return better best (← simulateCap c pool slacks (k + 2))) (.ok best) =
      (.ok (.ok s) : Checked (Except Deadlock Schedule)) := by
  induction ks generalizing best with
  | nil => exact ⟨best, rfl⟩
  | cons k rest ih =>
      obtain ⟨s, hs⟩ := hcap (k + 1)
      obtain ⟨kept, hkept⟩ := exists_better best s
      obtain ⟨last, hlast⟩ := ih kept
      refine ⟨last, ?_⟩
      rw [List.foldlM_cons, hs]
      change List.foldlM _ (better (.ok best) (.ok s)) rest = _
      rw [hkept]
      exact hlast

/-- Where every simulation succeeds, so does scheduling on any budget. -/
theorem exists_ofCircuit_of_caps {c : Circuit} {pool : Pool} {slacks : List Nat} (hslacks : c.slacks = .ok slacks)
    (hcap : ∀ k, ∃ s, simulateCap c pool slacks (k + 1) = .ok (.ok s)) (budget : Nat) :
    ∃ s, ofCircuit c pool budget = .ok s := by
  obtain ⟨first, hfirst⟩ := hcap 0
  obtain ⟨s, hs⟩ := exists_foldlM_better hcap
    (List.range (max (min (max budget 1) (nonLocalCount c)) 1 - 1)) first
  have htry : tryCaps c pool slacks (max (min (max budget 1) (nonLocalCount c)) 1 - 1) =
      .ok (.ok s) := by
    rw [tryCaps, hfirst]
    exact hs
  exact ⟨s, bind_eq_ok_iff.2 ⟨slacks, Outcome.liftM_eq_ok_iff.2 hslacks,
    bind_eq_ok_iff.2 ⟨.ok s, Outcome.liftM_eq_ok_iff.2 htry, rfl⟩⟩⟩

/-- A circuit without factories can be scheduled on any budget of channels. -/
theorem exists_ofCircuit {c : Circuit} (hbuilt : c.Built) (hplain : c.Plain)
    (hfits : c.totalCycles ≤ Word.top) (pool : Pool) (budget : Nat) :
    ∃ s, ofCircuit c pool budget = .ok s := by
  obtain ⟨slacks, hslacks⟩ := hbuilt.exists_slacks
  refine exists_ofCircuit_of_caps hslacks (fun k => ?_) budget
  have hjob : Job.Feasible ⟨c, slacks, k + 1⟩ := ⟨hbuilt, hplain, Nat.succ_pos _, hfits⟩
  obtain ⟨s, hs⟩ := hjob.exists_simulate pool
  exact ⟨s, by rw [simulateCap, hs]; rfl⟩

end Schedule

end SurfaceFabric
