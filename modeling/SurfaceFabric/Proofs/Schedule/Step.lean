import Mathlib.Logic.Relation
import SurfaceFabric.Proofs.Schedule.Progress

/-!
Simulations as events: a waiting gate starts, or the clock moves to the next completion. A simulation takes such
events in rounds, one offer to each gate that waits and then a completion, until all gates are finished or a round
cannot be made. A schedule within a budget is that of one simulation on no more channels than the budget has.
-/

namespace SurfaceFabric

namespace Job

variable {job : Job} {m m' : Moment}

inductive Event (job : Job) : Moment → Moment → Prop
  | start {m : Moment} {n length : Nat} {g : Gate} {binding : Option Nat} {pool : Pool}
      (hn : n ∈ job.waiting m) (hgate : job.circuit.gate? n = some g)
      (hchannel : job.hasChannel m g = true)
      (hengage : engage? m.pool g m.clock = some (length, binding, pool)) :
      Event job m (begin m ⟨n, m.clock, m.clock + length, binding⟩ pool)
  | complete {m : Moment} {t : Nat} {due : List Start} (hdue : nextDue m = (t, due)) (hsome : due ≠ []) :
      Event job m ⟨t, due.foldl (job.settle t) m.pool, m.started,
        m.running.filter fun r => r.finish != t, m.finished ++ due.map Start.node⟩

abbrev Reaches (job : Job) : Moment → Moment → Prop := Relation.ReflTransGen (Event job)

/-- An offer starts the gate, or changes nothing if there is no channel or no factory for it. -/
theorem offer_eq_ok {n : Nat} {g : Gate} (hgate : job.circuit.gate? n = some g) (h : job.offer m n = .ok m') :
    m' = m ∧ (job.hasChannel m g = true → engage? m.pool g m.clock = none) ∨
      ∃ length binding pool, job.hasChannel m g = true ∧
        engage? m.pool g m.clock = some (length, binding, pool) ∧
        m' = begin m ⟨n, m.clock, m.clock + length, binding⟩ pool := by
  rw [offer, hgate] at h
  dsimp only at h
  split at h
  · next hchannel =>
      refine .inl ⟨(pure_eq_ok_iff.1 h).symm, fun hsome => ?_⟩
      rw [hsome] at hchannel
      cases hchannel
  · next hchannel =>
      rw [Bool.not_eq_true, Bool.not_eq_false'] at hchannel
      split at h
      · next hengage => exact .inl ⟨(pure_eq_ok_iff.1 h).symm, fun _ => hengage⟩
      · next length binding pool hengage =>
          obtain ⟨finish, hadd, h⟩ := bind_eq_ok_iff.1 h
          obtain ⟨-, rfl⟩ := Word.add_eq_ok_iff.1 hadd
          exact .inr ⟨length, binding, pool, hchannel, hengage, (pure_eq_ok_iff.1 h).symm⟩

theorem exists_gate_of_waiting {n : Nat} (hn : n ∈ job.waiting m) : ∃ g, job.circuit.gate? n = some g :=
  Circuit.gate?_isSome (mem_waiting.1 hn).1

theorem offer_cases {n : Nat} (hn : n ∈ job.waiting m) (h : job.offer m n = .ok m') :
    m' = m ∨ Event job m m' ∧ ∃ s pool, s.node = n ∧ m' = begin m s pool := by
  obtain ⟨g, hgate⟩ := exists_gate_of_waiting hn
  obtain ⟨rfl, -⟩ | ⟨length, binding, pool, hchannel, hengage, rfl⟩ := offer_eq_ok hgate h
  · exact .inl rfl
  · exact .inr ⟨.start hn hgate hchannel hengage, _, pool, rfl, rfl⟩

theorem nodup_waiting (job : Job) (m : Moment) : (job.waiting m).Nodup :=
  (sortBy_perm _ _).nodup_iff.2 (List.nodup_range.filter _)

/-- After an offer to the first of several waiting gates the others still wait. -/
theorem waiting_after_offer {n : Nat} {rest : List Nat} (hn : n ∉ rest) (hnodes : ∀ j ∈ n :: rest, j ∈ job.waiting m)
    (h : job.offer m n = .ok m') : ∀ j ∈ rest, j ∈ job.waiting m' := by
  intro j hj
  have hwaiting := hnodes j (List.mem_cons_of_mem _ hj)
  rcases offer_cases (hnodes n List.mem_cons_self) h with rfl | ⟨-, s, pool, rfl, rfl⟩
  · exact hwaiting
  · obtain ⟨hlt, hfinished, hnew⟩ := mem_waiting.1 hwaiting
    refine mem_waiting.2 ⟨hlt, hfinished, ?_⟩
    intro r hr
    rcases List.mem_append.1 hr with hr | hr
    · exact hnew r hr
    · rw [List.mem_singleton.1 hr]
      rintro rfl
      exact hn hj

theorem reaches_of_offers {nodes : List Nat} (hnodup : nodes.Nodup) (hnodes : ∀ n ∈ nodes, n ∈ job.waiting m)
    (h : nodes.foldlM job.offer m = .ok m') : Reaches job m m' ∧ m'.finished = m.finished := by
  induction nodes generalizing m with
  | nil =>
      rw [← pure_eq_ok_iff.1 h]
      exact ⟨.refl, rfl⟩
  | cons n rest ih =>
      obtain ⟨hfirst, hrest⟩ := List.nodup_cons.1 hnodup
      rw [List.foldlM_cons] at h
      obtain ⟨next, hoffer, hoffers⟩ := bind_eq_ok_iff.1 h
      obtain ⟨hreach, hkeep⟩ := ih hrest (waiting_after_offer hfirst hnodes hoffer) hoffers
      rcases offer_cases (hnodes n List.mem_cons_self) hoffer with rfl | ⟨hevent, s, pool, rfl, rfl⟩
      · exact ⟨hreach, hkeep⟩
      · exact ⟨.head hevent hreach, hkeep⟩

theorem reaches_fault_of_offers {nodes : List Nat} (hnodup : nodes.Nodup)
    (hnodes : ∀ n ∈ nodes, n ∈ job.waiting m) {f : Fault} (h : nodes.foldlM job.offer m = .error f) :
    ∃ last n, Reaches job m last ∧ n ∈ job.waiting last ∧ job.offer last n = .error f := by
  induction nodes generalizing m with
  | nil => cases h
  | cons n rest ih =>
      obtain ⟨hfirst, hrest⟩ := List.nodup_cons.1 hnodup
      have hn := hnodes n List.mem_cons_self
      rw [List.foldlM_cons] at h
      cases hoffer : job.offer m n with
      | error e =>
          rw [hoffer] at h
          cases h
          exact ⟨m, n, .refl, hn, hoffer⟩
      | ok next =>
          rw [hoffer] at h
          obtain ⟨last, j, hreach, hj⟩ := ih hrest (waiting_after_offer hfirst hnodes hoffer) h
          rcases offer_cases hn hoffer with rfl | ⟨hevent, -⟩
          · exact ⟨last, j, hreach, hj⟩
          · exact ⟨last, j, .head hevent hreach, hj⟩

/-- Where nothing runs after a round of offers, none was taken up. -/
theorem offers_refused {nodes : List Nat} (hnodup : nodes.Nodup) (hnodes : ∀ n ∈ nodes, n ∈ job.waiting m)
    (h : nodes.foldlM job.offer m = .ok m') (hidle : m'.running = []) :
    m' = m ∧ ∀ n ∈ nodes, job.offer m n = .ok m := by
  induction nodes generalizing m with
  | nil => exact ⟨(pure_eq_ok_iff.1 h).symm, by simp⟩
  | cons n rest ih =>
      obtain ⟨hfirst, hrest⟩ := List.nodup_cons.1 hnodup
      rw [List.foldlM_cons] at h
      obtain ⟨next, hoffer, hoffers⟩ := bind_eq_ok_iff.1 h
      obtain ⟨rfl, hrefused⟩ := ih hrest (waiting_after_offer hfirst hnodes hoffer) hoffers
      rcases offer_cases (hnodes n List.mem_cons_self) hoffer with rfl | ⟨-, s, pool, -, rfl⟩
      · exact ⟨rfl, List.forall_mem_cons.2 ⟨hoffer, hrefused⟩⟩
      · simp [begin] at hidle

/-- One round of a simulation: all that wait are offered a start, and the clock moves to the next completion. -/
inductive Round (job : Job) (m : Moment) : Moment → Prop
  | mk {next : Moment} {t : Nat} {due : List Start} (hoffers : job.offerAll m = .ok next)
      (hdue : nextDue next = (t, due)) (hsome : due ≠ []) :
      Round job m ⟨t, due.foldl (job.settle t) next.pool, next.started,
        next.running.filter fun r => r.finish != t, next.finished ++ due.map Start.node⟩

abbrev Rounds (job : Job) : Moment → Moment → Prop := Relation.ReflTransGen (Round job)

inductive Ends (job : Job) (m : Moment) : Outcome Deadlock Moment → Prop
  | done (hsize : job.circuit.size ≤ m.finished.length) : Ends job m (.ok m)
  | fault {f : Fault} (hoffers : job.offerAll m = .error f) : Ends job m (.error (.fault f))
  | stuck {next : Moment} (hsize : m.finished.length < job.circuit.size) (hoffers : job.offerAll m = .ok next)
      (hidle : next.running = []) : Ends job m (.error (.refused ⟨m.clock, (job.waiting next).length⟩))

theorem running_eq_nil_of_nextDue {t : Nat} (h : nextDue m = (t, [])) : m.running = [] := by
  by_contra hsome
  obtain ⟨first, hfirst⟩ := exists_min? (l := m.running.map Start.finish) (by simpa using hsome)
  obtain ⟨s, hs, hst⟩ := List.mem_map.1 (List.min?_eq_some_iff.1 hfirst).1
  have hdue : s ∈ (nextDue m).2 := by
    simp [nextDue, hfirst, hs, hst]
  rw [h] at hdue
  cases hdue

theorem reaches_of_offerAll (h : job.offerAll m = .ok m') : Reaches job m m' ∧ m'.finished = m.finished :=
  reaches_of_offers (nodup_waiting job m) (fun _ hn => hn) h

theorem Rounds.reaches (h : Rounds job m m') : Reaches job m m' := by
  induction h with
  | refl => exact .refl
  | tail _ hround ih =>
      obtain ⟨hoffers, hdue, hsome⟩ := hround
      exact (ih.trans (reaches_of_offerAll hoffers).1).tail (.complete hdue hsome)

/-- A simulation is made of rounds, and of what ends it. -/
theorem exists_end (job : Job) (m : Moment) : ∃ last, Rounds job m last ∧ Ends job last (job.simulateFrom m) := by
  induction hleft : job.circuit.size - m.finished.length using Nat.strong_induction_on generalizing m with
  | _ left ih =>
      rw [simulateFrom]
      split
      · next hsize =>
          split
          · next f hoffers => exact ⟨m, .refl, .fault hoffers⟩
          · next next hoffers =>
              have hkeep := (reaches_of_offerAll hoffers).2
              split
              · next t hdue => exact ⟨m, .refl, .stuck hsize hoffers (running_eq_nil_of_nextDue hdue)⟩
              · next t s due hdue =>
                  have hfewer : job.circuit.size - (next.finished ++ (s :: due).map Start.node).length < left := by
                    simp only [hkeep, List.map_cons, List.length_append, List.length_cons]
                    omega
                  rw [← hkeep]
                  obtain ⟨last, hrounds, hend⟩ := ih _ hfewer ⟨t, (s :: due).foldl (job.settle t) next.pool,
                    next.started, next.running.filter fun r => r.finish != t, _⟩ rfl
                  exact ⟨last, .head (.mk hoffers hdue (by simp)) hrounds, hend⟩
      · next hdone => exact ⟨m, .refl, .done (Nat.le_of_not_lt hdone)⟩

theorem rounds_of_simulateFrom (h : job.simulateFrom m = .ok m') :
    Rounds job m m' ∧ job.circuit.size ≤ m'.finished.length := by
  obtain ⟨last, hrounds, hend⟩ := exists_end job m
  rw [h] at hend
  cases hend with
  | done hsize => exact ⟨hrounds, hsize⟩

/-- A fault of a simulation is that of an offer it makes. -/
theorem reaches_fault_of_simulateFrom {f : Fault} (h : job.simulateFrom m = .error (.fault f)) :
    ∃ last n, Reaches job m last ∧ n ∈ job.waiting last ∧ job.offer last n = .error f := by
  obtain ⟨first, hrounds, hend⟩ := exists_end job m
  rw [h] at hend
  cases hend with
  | fault hoffers =>
      obtain ⟨last, n, hreach, hn⟩ := reaches_fault_of_offers (nodup_waiting job first) (fun _ hn => hn) hoffers
      exact ⟨last, n, hrounds.reaches.trans hreach, hn⟩

/-- A simulation is refused at a moment when nothing runs, not all gates are finished, and none of those that
wait can start. -/
theorem reaches_refusal_of_simulateFrom {d : Deadlock} (h : job.simulateFrom m = .error (.refused d)) :
    ∃ last, Reaches job m last ∧ last.running = [] ∧ last.finished.length < job.circuit.size ∧
      d.waiting = (job.waiting last).length ∧ ∀ n ∈ job.waiting last, job.offer last n = .ok last := by
  obtain ⟨last, hrounds, hend⟩ := exists_end job m
  rw [h] at hend
  cases hend with
  | stuck hsize hoffers hidle =>
      obtain ⟨rfl, hrefused⟩ := offers_refused (nodup_waiting job last) (fun _ hn => hn) hoffers hidle
      exact ⟨_, hrounds.reaches, hidle, hsize, rfl, hrefused⟩

/-- A simulation that does not end well breaks off on the way. -/
theorem simulate_eq_error_iff {pool : Pool} {stop : Stop Deadlock} :
    job.simulate pool = .error stop ↔ job.simulateFrom ⟨0, pool, [], [], []⟩ = .error stop := by
  rw [simulate]
  cases job.simulateFrom ⟨0, pool, [], [], []⟩ with
  | error stop' =>
      constructor
      all_goals
        rintro ⟨⟩
        rfl
  | ok m =>
      constructor
      all_goals rintro ⟨⟩

theorem rounds_of_simulate {pool : Pool} {s : Schedule} (h : job.simulate pool = .ok s) :
    ∃ m, Rounds job ⟨0, pool, [], [], []⟩ m ∧ job.circuit.size ≤ m.finished.length ∧
      s = job.scheduleOf m := by
  obtain ⟨m, hm, h⟩ := bind_eq_ok_iff.1 h
  obtain ⟨hrounds, hdone⟩ := rounds_of_simulateFrom hm
  exact ⟨m, hrounds, hdone, (pure_eq_ok_iff.1 h).symm⟩

theorem reaches_of_simulate {pool : Pool} {s : Schedule} (h : job.simulate pool = .ok s) :
    ∃ m, Reaches job ⟨0, pool, [], [], []⟩ m ∧ job.circuit.size ≤ m.finished.length ∧
      s = job.scheduleOf m := by
  obtain ⟨m, hrounds, hrest⟩ := rounds_of_simulate h
  exact ⟨m, hrounds.reaches, hrest⟩

end Job

namespace Schedule

theorem better_eq_ok {best next : Except Deadlock Schedule} {s : Schedule}
    (h : better best next = .ok s) : best = .ok s ∨ next = .ok s := by
  rw [better.eq_def] at h
  split at h
  · split at h
    · exact .inr h
    · exact .inl h
  · exact .inl h
  · exact .inr h

/-- Of two refusals the later one is kept. -/
theorem better_eq_error {best next : Except Deadlock Schedule} {d : Deadlock}
    (h : better best next = .error d) : next = .error d := by
  rw [better.eq_def] at h
  split at h
  · split at h <;> cases h
  · cases h
  · exact h

/-- The schedule that is kept came from one of the caps. -/
theorem exists_cap_of_foldlM_better {c : Circuit} {pool : Pool} {slacks ks : List Nat}
    {best : Except Deadlock Schedule} {s : Schedule}
    (h : ks.foldlM (fun best k => return better best (← simulateCap c pool slacks (k + 2))) best =
      (.ok (.ok s) : Checked (Except Deadlock Schedule))) :
    best = .ok s ∨ ∃ k ∈ ks, simulateCap c pool slacks (k + 2) = .ok (.ok s) := by
  induction ks generalizing best with
  | nil => exact .inl (pure_eq_ok_iff.1 h)
  | cons k rest ih =>
      rw [List.foldlM_cons] at h
      obtain ⟨kept, hkept, h⟩ := bind_eq_ok_iff.1 h
      obtain ⟨next, hnext, hkept⟩ := bind_eq_ok_iff.1 hkept
      rcases ih h with rfl | ⟨j, hj, hcap⟩
      · rcases better_eq_ok (pure_eq_ok_iff.1 hkept) with hbest | rfl
        · exact .inl hbest
        · exact .inr ⟨k, by simp, hnext⟩
      · exact .inr ⟨j, by simp [hj], hcap⟩

/-- A schedule within a budget is that of one simulation, with the slacks of the circuit. -/
theorem exists_job_of_ofCircuit {c : Circuit} {pool : Pool} {budget : Nat} {s : Schedule}
    (h : ofCircuit c pool budget = .ok s) :
    ∃ slacks channels, c.slacks = .ok slacks ∧ channels ≤ max budget 1 ∧
      Job.simulate ⟨c, slacks, channels⟩ pool = .ok s := by
  obtain ⟨slacks, hslacks, h⟩ := bind_eq_ok_iff.1 h
  obtain ⟨outcome, htry, h⟩ := bind_eq_ok_iff.1 h
  rw [Outcome.liftM_eq_ok_iff] at hslacks htry
  cases outcome with
  | error e => cases h
  | ok kept =>
      obtain rfl : kept = s := pure_eq_ok_iff.1 h
      obtain ⟨first, hfirst, htry⟩ := bind_eq_ok_iff.1 htry
      rcases exists_cap_of_foldlM_better htry with rfl | ⟨k, hk, hcap⟩
      · exact ⟨slacks, 1, hslacks, by omega, Outcome.settle_eq_ok_ok_iff.1 hfirst⟩
      · rw [List.mem_range] at hk
        exact ⟨slacks, k + 2, hslacks, by omega, Outcome.settle_eq_ok_ok_iff.1 hcap⟩

theorem exists_simulate_of_ofCircuit {c : Circuit} {pool : Pool} {budget : Nat} {s : Schedule}
    (h : ofCircuit c pool budget = .ok s) :
    ∃ slacks channels, channels ≤ max budget 1 ∧ Job.simulate ⟨c, slacks, channels⟩ pool = .ok s := by
  obtain ⟨slacks, channels, -, hsimulate⟩ := exists_job_of_ofCircuit h
  exact ⟨slacks, channels, hsimulate⟩

end Schedule

end SurfaceFabric
