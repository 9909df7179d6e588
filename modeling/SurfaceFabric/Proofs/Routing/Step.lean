import SurfaceFabric.Proofs.Routing.Admission
import SurfaceFabric.Routing.Run

/-!
Routing as steps between states: gates that have ended are completed, a ready gate waits or is admitted,
and the clock moves on. A run that succeeds takes such steps from its first state to one in which all
gates are finished, so what every step keeps holds at its end.
-/

namespace SurfaceFabric

theorem LockGrid.ofLayout_eq_ok_iff {l : Layout} {g : LockGrid} :
    ofLayout l = .ok g ↔ l.height * l.width ≤ Word.top ∧
      g = ⟨l.height, l.width, ((allCells l.height l.width).map (patchOf l)).toArray, []⟩ := by
  simp only [ofLayout, bind_eq_ok_iff, Word.mul_eq_ok_iff, pure_eq_ok_iff]
  constructor
  · rintro ⟨area, ⟨hle, -⟩, rfl⟩
    exact ⟨hle, rfl⟩
  · rintro ⟨hle, rfl⟩
    exact ⟨_, ⟨hle, rfl⟩, rfl⟩

abbrev RoutingState.enter (s : RoutingState) {job : RoutingJob} {n t : Nat} (a : RoutingJob.Admission job s.fabric n t) :
    RoutingState :=
  { s with fabric := a.fabric, routes := s.routes ++ [a.route], running := s.running ++ [a.route] }

namespace RoutingJob

theorem start_eq_ok_iff {c : Circuit} {l : Layout} {m : Mapping} {schedule : Schedule}
    {settings : RoutingSettings} {job : RoutingJob} {f : Fabric} :
    start c l m schedule settings = .ok (job, f) ↔ ∃ grid, LockGrid.ofLayout l = .ok grid ∧
      job = ⟨c, schedule, settings, grid.switches settings.teleport⟩ ∧ f = ⟨grid, m, []⟩ := by
  simp only [start, bind_eq_ok_iff, pure_eq_ok_iff, Prod.mk.injEq, @eq_comm _ job, @eq_comm _ f]

variable {job : RoutingJob} {pace : Pace} {slacks : List Nat}

structure Admissible (job : RoutingJob) (s : RoutingState) (n : Nat) : Prop where
  lt_size : n < job.circuit.size
  dependencies_finished : ∀ p ∈ job.circuit.dependencies n, p ∈ s.finished
  not_routed : ∀ r ∈ s.routes, r.gate ≠ n

theorem mem_ready {s : RoutingState} {n : Nat} : n ∈ job.ready slacks s ↔ job.Admissible s n := by
  simp only [ready, mem_sortBy, List.mem_filter, List.mem_range, Bool.and_eq_true,
    List.all_eq_true, decide_eq_true_eq, bne_iff_ne]
  exact ⟨fun h => ⟨h.1, h.2.1, h.2.2⟩, fun h => ⟨h.1, h.2, h.3⟩⟩

theorem ready_nodup (s : RoutingState) : (job.ready slacks s).Nodup :=
  (sortBy_perm _ _).nodup_iff.2 (List.nodup_range.filter _)

/-- The admission of a gate leaves the others admissible. -/
theorem Admissible.enter {s : RoutingState} {m n : Nat} (h : job.Admissible s n) (hne : m ≠ n)
    (a : Admission job s.fabric m s.clock) : job.Admissible (s.enter a) n := by
  refine ⟨h.lt_size, h.dependencies_finished, fun r hr => ?_⟩
  rcases List.mem_append.1 hr with hr | hr
  · exact h.not_routed r hr
  · rw [List.mem_singleton.1 hr]
    exact hne

abbrev offer (job : RoutingJob) (slacks : List Nat) (s : RoutingState) :
    Checked (RoutingState × Except CompileError Unit) :=
  job.admitAll (job.ready slacks (job.completeDue s)) (job.completeDue s)

inductive Step (job : RoutingJob) (pace : Pace) (slacks : List Nat) :
    RoutingState → RoutingState → Prop
  | complete (s : RoutingState) : Step job pace slacks s (job.completeDue s)
  | wait {s : RoutingState} {n : Nat} {f : Fabric} (hn : job.Admissible s n)
      (htry : job.tryRoute s.fabric n s.clock = .ok (f, .ok none)) :
      Step job pace slacks s { s with fabric := f }
  | enter {s : RoutingState} {n : Nat} (hn : job.Admissible s n)
      (a : Admission job s.fabric n s.clock) :
      Step job pace slacks s { s with
        fabric := a.fabric, routes := s.routes ++ [a.route], running := s.running ++ [a.route] }
  | advance {s : RoutingState} {progressed : Bool} {t stalled : Nat}
      (hadvance : job.advance pace slacks s progressed = .ok (t, stalled)) (hlt : s.clock < t)
      (htop : t ≤ Word.top) : Step job pace slacks s { s with clock := t, stalled := stalled }

abbrev Reaches (job : RoutingJob) (pace : Pace) (slacks : List Nat) :
    RoutingState → RoutingState → Prop :=
  Relation.ReflTransGen (Step job pace slacks)

/-- How admission is offered to the first of some gates: it waits, or it is admitted. -/
theorem admitAll_cons {n : Nat} {rest : List Nat} {s s' : RoutingState}
    (h : job.admitAll (n :: rest) s = .ok (s', .ok ())) :
    (∃ f, job.tryRoute s.fabric n s.clock = .ok (f, .ok none) ∧
      job.admitAll rest { s with fabric := f } = .ok (s', .ok ())) ∨
    ∃ a : Admission job s.fabric n s.clock, job.admitAll rest (s.enter a) =
        .ok (s', .ok ()) := by
  rw [admitAll] at h
  obtain ⟨⟨f, found⟩, htry, h⟩ := bind_eq_ok_iff.1 h
  match found, htry, h with
  | .ok none, htry, h => exact .inl ⟨f, htry, h⟩
  | .ok (some r), htry, h =>
      obtain ⟨a, rfl, rfl⟩ := tryRoute_eq_some_iff.1 htry
      exact .inr ⟨a, h⟩

theorem reaches_of_admitAll {nodes : List Nat} {s s' : RoutingState} (hnodup : nodes.Nodup)
    (hnodes : ∀ n ∈ nodes, job.Admissible s n) (h : job.admitAll nodes s = .ok (s', .ok ())) :
    Reaches job pace slacks s s' := by
  induction nodes generalizing s with
  | nil =>
      simp only [admitAll, pure_eq_ok_iff, Prod.mk.injEq, and_true] at h
      rw [h]
  | cons n rest ih =>
      obtain ⟨hn, hrest⟩ := List.nodup_cons.1 hnodup
      obtain ⟨f, htry, h⟩ | ⟨a, h⟩ := admitAll_cons h
      · refine Relation.ReflTransGen.head (.wait (hnodes n (by simp)) htry) (ih hrest ?_ h)
        intro m hm
        obtain ⟨hlt, hdeps, hrouted⟩ := hnodes m (by simp [hm])
        exact ⟨hlt, hdeps, hrouted⟩
      · refine Relation.ReflTransGen.head (.enter (hnodes n (by simp)) a) (ih hrest ?_ h)
        intro m hm
        refine (hnodes m (by simp [hm])).enter ?_ a
        rintro rfl
        exact hn hm

/-- Offering admission moves neither the clock nor what is finished. -/
theorem admitAll_keeps {nodes : List Nat} {s s' : RoutingState} {result : Except CompileError Unit}
    (h : job.admitAll nodes s = .ok (s', result)) :
    s'.clock = s.clock ∧ s'.finished = s.finished := by
  induction nodes generalizing s with
  | nil =>
      simp only [admitAll, pure_eq_ok_iff, Prod.mk.injEq] at h
      simp [← h.1]
  | cons n rest ih =>
      rw [admitAll] at h
      obtain ⟨⟨f, found⟩, -, h⟩ := bind_eq_ok_iff.1 h
      rcases found with e | _ | r
      · simp only [pure_eq_ok_iff, Prod.mk.injEq] at h
        simp [← h.1]
      · exact ih (s := { s with fabric := f }) h
      · exact ih (s := { s with
          fabric := f, routes := s.routes ++ [r], running := s.running ++ [r] }) h

/-- Completing what is due and offering admission to what is ready then. -/
theorem reaches_of_ready {s s' : RoutingState}
    (h : job.offer slacks s = .ok (s', .ok ())) :
    Reaches job pace slacks s s' :=
  .head (.complete s) (reaches_of_admitAll (ready_nodup _) (fun _ hn => mem_ready.1 hn) h)

/-- A run that succeeds gets, step by step, to a state in which all gates are finished. -/
theorem reaches_of_runFrom {s : RoutingState} {f : Fabric} {r : Routing}
    (h : job.runFrom pace slacks s = .ok (f, .ok r)) :
    ∃ s', Reaches job pace slacks s s' ∧ job.circuit.size ≤ s'.finished.length ∧
      f = s'.fabric ∧ r = routingOf s' := by
  induction hk : Word.top - s.clock using Nat.strong_induction_on generalizing s with
  | _ k ih =>
      rw [runFrom] at h
      split at h
      · next hsize =>
          obtain ⟨⟨s₂, result⟩, hadmit, h⟩ := bind_eq_ok_iff.1 h
          cases result with
          | error e => simp at h
          | ok _ =>
              have hreach : Reaches job pace slacks s s₂ := reaches_of_ready hadmit
              dsimp only at h
              split at h
              · next hdone =>
                  simp only [pure_eq_ok_iff, Prod.mk.injEq, Except.ok.injEq] at h
                  exact ⟨s₂, hreach, hdone.ge, h.1.symm, h.2.symm⟩
              · obtain ⟨outcome, hadvance, h⟩ := bind_eq_ok_iff.1 h
                cases outcome with
                | error d => simp at h
                | ok next =>
                    obtain ⟨t, stalled⟩ := next
                    rw [Outcome.settle_eq_ok_ok_iff] at hadvance
                    dsimp only at h
                    split at h
                    · next hclock =>
                        have hkeep : s₂.clock = s.clock := (admitAll_keeps hadmit).1
                        obtain ⟨s', hreach', hs'⟩ := ih (Word.top - t) (by omega) h rfl
                        refine ⟨s', (hreach.tail ?_).trans hreach', hs'⟩
                        exact .advance hadvance (by omega) hclock.2
                    · cases h
      · simp only [pure_eq_ok_iff, Prod.mk.injEq, Except.ok.injEq] at h
        exact ⟨s, .refl, by omega, h.1.symm, h.2.symm⟩

theorem reaches_of_run {f f' : Fabric} {r : Routing} (h : job.run f = .ok (f', .ok r)) :
    ∃ slacks s, Reaches job jump slacks ⟨0, 0, f, [], [], []⟩ s ∧
      job.circuit.size ≤ s.finished.length ∧ f' = s.fabric ∧ r = routingOf s := by
  obtain ⟨slacks, -, h⟩ := bind_eq_ok_iff.1 h
  exact ⟨slacks, reaches_of_runFrom h⟩

end RoutingJob

end SurfaceFabric
