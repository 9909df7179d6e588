import SurfaceFabric.Proofs.Routing.Deferral

/-!
The clock may jump. While gates run it moves on to the next tick at which a lock begins or ends or a gate
is completed. A run that stops at every tick in between finds nothing to do there, as long as no lock is
taken for later, gates have two operands at most, no gate picks a factory beside another operand, and no
two slots have one handle, so that a commit leaves the bindings of others alone.
-/

namespace SurfaceFabric

def RoutingState.moved (s : RoutingState) (t : Nat) : RoutingState := { s with clock := t, stalled := 0 }

namespace RoutingJob

variable {job : RoutingJob} {pace : Pace} {slacks : List Nat} {s s' : RoutingState} {n t limit : Nat}

def tick : Pace := fun _ t _ => t + 1

def runAt (job : RoutingJob) (pace : Pace) (f : Fabric) :
    Checked (Fabric × Except CompileError Routing) := do
  job.runFrom pace (← job.circuit.slacks) ⟨0, 0, f, [], [], []⟩

theorem runAt_jump (job : RoutingJob) (f : Fabric) : job.runAt jump f = job.run f := rfl

theorem runAt_eq_runFrom (h : job.circuit.slacks = .ok slacks) (pace : Pace) (f : Fabric) :
    job.runAt pace f = job.runFrom pace slacks ⟨0, 0, f, [], [], []⟩ := by
  rw [runAt, h]
  exact pure_bind slacks _

def cyclesAt (pace : Pace) (c : Circuit) (l : Layout) (m : Mapping) (schedule : Schedule)
    (settings : RoutingSettings) : Checked (Except CompileError Nat) := do
  let (job, f) ← start c l m schedule settings
  return (← job.runAt pace f).2.map Routing.cycles

/-- A job whose gates wait for what is held now and for nothing else. -/
structure Regular (job : RoutingJob) : Prop where
  built : job.circuit.Built
  staged : job.circuit.Staged
  prompt : job.settings.teleport.Prompt

structure Orderly (job : RoutingJob) (s : RoutingState) : Prop where
  tracked : Tracked job s
  custody : Custody job s
  begun : Begun s

theorem Orderly.step (h : Orderly job s) (hjob : Regular job) (hstep : Step job pace slacks s s') :
    Orderly job s' :=
  ⟨h.tracked.step hstep, h.custody.step h.tracked hjob.built hstep, h.begun.step hjob.prompt hstep⟩

theorem Orderly.reaches (h : Orderly job s) (hjob : Regular job) (hreach : Reaches job pace slacks s s') :
    Orderly job s' := by
  induction hreach with
  | refl => exact h
  | tail _ hstep ih => exact ih.step hjob hstep

theorem orderly_start {f : Fabric} (hdistinct : f.mapping.pool.Distinct) (hholds : f.grid.holds = [])
    (hteleports : f.teleports = []) : Orderly job ⟨0, 0, f, [], [], []⟩ := by
  refine ⟨tracked_start job f, ⟨hdistinct, by simp, by simp⟩, ⟨?_, ?_, by simp⟩⟩
  · simp [hholds]
  · simp [hteleports]

def progressed (s s' : RoutingState) : Bool :=
  s.finished.length < s'.finished.length || s.routes.length < s'.routes.length

/-- What is left of a tick once the gates that were ready have been offered admission. -/
theorem runFrom_of_admitAll (hsize : s.finished.length < job.circuit.size)
    (hoffer : job.offer slacks s = .ok (s', .ok ()))
    (pace : Pace) : job.runFrom pace slacks s =
      if s'.finished.length = job.circuit.size then .ok (s'.fabric, .ok (routingOf s'))
      else (job.advance pace slacks s' (progressed s s')).settle >>= fun
        | .error d => .ok (s'.fabric, .error (.deadlock d))
        | .ok (t, stalled) =>
            if s.clock < t ∧ t ≤ Word.top then
              job.runFrom pace slacks { s' with clock := t, stalled := stalled }
            else .error .overflow := by
  rw [runFrom, if_pos hsize]
  simp only [hoffer]
  rfl

/-- What a run does at a tick before the clock moves: gates that have ended are completed, ready ones are
offered admission, some are running then and some are not finished. -/
structure Round (job : RoutingJob) (slacks : List Nat) (s s' : RoutingState) (finish : Nat) : Prop where
  unfinished : s.finished.length < job.circuit.size
  admitAll_eq : job.admitAll (job.ready slacks (job.completeDue s)) (job.completeDue s) = .ok (s', .ok ())
  length_ne : s'.finished.length ≠ job.circuit.size
  least_eq : (s'.running.map Route.finish).min? = some finish

theorem Round.advance_eq {finish : Nat} (h : Round job slacks s s' finish) (progressed : Bool) :
    job.advance pace slacks s' progressed = .ok (pace s'.fabric.grid s'.clock finish, 0) := by
  rw [advance, h.least_eq]
  rfl

/-- The clock moves on from a round at its pace. -/
theorem Round.runFrom_eq {finish : Nat} (h : Round job slacks s s' finish)
    (hlt : s.clock < pace s'.fabric.grid s'.clock finish)
    (htop : pace s'.fabric.grid s'.clock finish ≤ Word.top) :
    job.runFrom pace slacks s =
      job.runFrom pace slacks (s'.moved (pace s'.fabric.grid s'.clock finish)) := by
  rw [runFrom_of_admitAll h.unfinished h.admitAll_eq, if_neg h.length_ne, h.advance_eq]
  exact if_pos ⟨hlt, htop⟩

/-- While no gate is running the clock has no pace: a run comes to an end, or to the next tick. -/
theorem runFrom_of_min?_eq_none (hsize : s.finished.length < job.circuit.size)
    (hoffer : job.offer slacks s = .ok (s', .ok ()))
    (hopen : s'.finished.length ≠ job.circuit.size) (hleast : (s'.running.map Route.finish).min? = none) :
    (∃ result, ∀ pace, job.runFrom pace slacks s = result) ∨
      ∃ s', s.clock < s'.clock ∧ s'.clock ≤ Word.top ∧ Reaches job jump slacks s s' ∧
        ∀ pace, job.runFrom pace slacks s = job.runFrom pace slacks s' := by
  have hrun := runFrom_of_admitAll hsize hoffer
  have hadvance (pace : Pace) :
      job.advance pace slacks s' (progressed s s') = job.advance jump slacks s' (progressed s s') := by
    rw [advance, advance, hleast]
  simp only [if_neg hopen, hadvance] at hrun
  cases hnext : (job.advance jump slacks s' (progressed s s')).settle with
  | error e => exact .inl ⟨.error e, fun pace => by rw [hrun, hnext]; rfl⟩
  | ok next =>
      match next, hnext with
      | .error d, hnext => exact .inl ⟨_, fun pace => by rw [hrun, hnext]; rfl⟩
      | .ok (t, stalled), hnext =>
          by_cases hclock : s.clock < t ∧ t ≤ Word.top
          · have hkeep : s'.clock = s.clock := (admitAll_keeps hoffer).1
            have hmove := Step.advance (Outcome.settle_eq_ok_ok_iff.1 hnext) (hkeep ▸ hclock.1) hclock.2
            refine .inr ⟨_, hclock.1, hclock.2, (reaches_of_ready hoffer).tail hmove, fun pace => ?_⟩
            rw [hrun, hnext]
            exact if_pos hclock
          · refine .inl ⟨.error .overflow, fun pace => ?_⟩
            rw [hrun, hnext]
            exact if_neg hclock

theorem runFrom_of_fault {e : Fault} (hsize : s.finished.length < job.circuit.size)
    (hoffer : job.offer slacks s = .error e) (pace : Pace) :
    job.runFrom pace slacks s = .error e := by
  rw [runFrom, if_pos hsize]
  simp only [hoffer]
  rfl

theorem runFrom_of_refusal {e : CompileError} (hsize : s.finished.length < job.circuit.size)
    (hoffer : job.offer slacks s = .ok (s', .error e))
    (pace : Pace) : job.runFrom pace slacks s = .ok (s'.fabric, .error e) := by
  rw [runFrom, if_pos hsize]
  simp only [hoffer]
  rfl

theorem runFrom_of_finished (hsize : s.finished.length < job.circuit.size)
    (hoffer : job.offer slacks s = .ok (s', .ok ()))
    (hdone : s'.finished.length = job.circuit.size) (pace : Pace) :
    job.runFrom pace slacks s = .ok (s'.fabric, .ok (routingOf s')) := by
  rw [runFrom_of_admitAll hsize hoffer, if_pos hdone]

/-- What a run comes to at a tick: it is over or breaks off, all gates are finished, or some run or none. -/
inductive Turn (job : RoutingJob) (slacks : List Nat) (s : RoutingState) : Prop
  | ended (hsize : ¬s.finished.length < job.circuit.size)
  | fault {e : Fault} (hsize : s.finished.length < job.circuit.size)
      (hoffer : job.admitAll (job.ready slacks (job.completeDue s)) (job.completeDue s) = .error e)
  | refusal {s' : RoutingState} {e : CompileError} (hsize : s.finished.length < job.circuit.size)
      (hoffer : job.admitAll (job.ready slacks (job.completeDue s)) (job.completeDue s) = .ok (s', .error e))
  | finished {s' : RoutingState} (hsize : s.finished.length < job.circuit.size)
      (hoffer : job.admitAll (job.ready slacks (job.completeDue s)) (job.completeDue s) = .ok (s', .ok ()))
      (hdone : s'.finished.length = job.circuit.size)
  | round {s' : RoutingState} {finish : Nat} (h : Round job slacks s s' finish)
  | idle {s' : RoutingState} (hsize : s.finished.length < job.circuit.size)
      (hoffer : job.admitAll (job.ready slacks (job.completeDue s)) (job.completeDue s) = .ok (s', .ok ()))
      (hopen : s'.finished.length ≠ job.circuit.size) (hidle : s'.running = [])

theorem turn (job : RoutingJob) (slacks : List Nat) (s : RoutingState) : Turn job slacks s := by
  by_cases hsize : s.finished.length < job.circuit.size
  · cases hoffer : job.offer slacks s with
    | error e => exact .fault hsize hoffer
    | ok outcome =>
        obtain ⟨s', result⟩ := outcome
        cases result with
        | error e => exact .refusal hsize hoffer
        | ok _ =>
            by_cases hdone : s'.finished.length = job.circuit.size
            · exact .finished hsize hoffer hdone
            · cases hleast : (s'.running.map Route.finish).min? with
              | none =>
                  refine .idle hsize hoffer hdone (Classical.byContradiction fun hrunning => ?_)
                  obtain ⟨finish, hfinish⟩ := exists_min? (l := s'.running.map Route.finish) (by simpa using hrunning)
                  rw [hleast] at hfinish
                  cases hfinish
              | some finish => exact .round ⟨hsize, hoffer, hdone, hleast⟩
  · exact .ended hsize

/-- A run has a round, or it comes to the same whatever its pace: to an end, or to its next tick. -/
theorem round_or_runFrom_eq (job : RoutingJob) (slacks : List Nat) (s : RoutingState) :
    (∃ s' finish, Round job slacks s s' finish) ∨
      (∃ result, ∀ pace, job.runFrom pace slacks s = result) ∨
      ∃ s', s.clock < s'.clock ∧ s'.clock ≤ Word.top ∧ Reaches job jump slacks s s' ∧
        ∀ pace, job.runFrom pace slacks s = job.runFrom pace slacks s' := by
  cases turn job slacks s with
  | ended hsize => exact .inr (.inl ⟨_, fun pace => by rw [runFrom, if_neg hsize]⟩)
  | fault hsize hoffer => exact .inr (.inl ⟨_, runFrom_of_fault hsize hoffer⟩)
  | refusal hsize hoffer => exact .inr (.inl ⟨_, runFrom_of_refusal hsize hoffer⟩)
  | finished hsize hoffer hdone => exact .inr (.inl ⟨_, runFrom_of_finished hsize hoffer hdone⟩)
  | round h => exact .inl ⟨_, _, h⟩
  | idle hsize hoffer hopen hidle =>
      exact .inr (runFrom_of_min?_eq_none hsize hoffer hopen (by rw [hidle]; rfl))

/-- Gates that are admitted from some state on start no earlier than its clock. -/
theorem start_of_reaches (h : Reaches job pace slacks s s') :
    s.clock ≤ s'.clock ∧ ∀ r ∈ s'.routes, r ∈ s.routes ∨ s.clock ≤ r.start := by
  induction h with
  | refl => exact ⟨Nat.le_refl _, fun r hr => .inl hr⟩
  | tail _ hstep ih =>
      obtain ⟨hclock, hstart⟩ := ih
      cases hstep with
      | complete => exact ⟨hclock, hstart⟩
      | wait => exact ⟨hclock, hstart⟩
      | enter _ a =>
          refine ⟨hclock, fun r hr => ?_⟩
          rcases List.mem_append.1 hr with hr | hr
          · exact hstart r hr
          · rw [List.mem_singleton.1 hr]
            exact .inr hclock
      | advance _ hlt => exact ⟨hclock.trans hlt.le, hstart⟩

/-- A run does not succeed once the end of a gate that waits is out of the word. -/
theorem Orderly.runFrom_ne_ok (h : Orderly job s) (hjob : Regular job) (hn : job.Admissible s n) {g : Gate}
    (hg : job.circuit.gate? n = some g) (htop : Word.top < s.clock + max g.cycles 1) (f : Fabric)
    (r : Routing) : job.runFrom pace slacks s ≠ .ok (f, .ok r) := by
  intro hrun
  obtain ⟨s', hreach, hsize, -, -⟩ := reaches_of_runFrom hrun
  have hs' := h.reaches hjob hreach
  have hmem : n ∈ s'.routes.map Route.gate :=
    (hs'.tracked.routes_perm hsize).mem_iff.2 (List.mem_range.2 hn.lt_size)
  obtain ⟨x, hx, rfl⟩ := List.mem_map.1 hmem
  obtain ⟨g', hg', htimed⟩ := hs'.tracked.timed x hx
  cases hg.symm.trans hg'
  have hstart : s.clock ≤ x.start :=
    ((start_of_reaches hreach).2 x hx).resolve_left fun hold => hn.not_routed x hold rfl
  have hend := hs'.begun.finish_le x hx
  omega

/-- A round in which all gates have to wait changes nothing, unless the end of one is out of the word. -/
theorem admitAll_of_waits {nodes : List Nat} (hdistinct : s.fabric.mapping.pool.Distinct)
    (hnodes : ∀ n ∈ nodes, ∃ g, job.circuit.gate? n = some g ∧ job.Waits s.fabric n s.clock g) :
    job.admitAll nodes s = .ok (s, .ok ()) ∨ job.admitAll nodes s = .error .overflow ∧
      ∃ n ∈ nodes, ∃ g, job.circuit.gate? n = some g ∧ Word.top < s.clock + max g.cycles 1 := by
  induction nodes with
  | nil => exact .inl rfl
  | cons n rest ih =>
      obtain ⟨g, hg, hwaits⟩ := hnodes n List.mem_cons_self
      rw [admitAll, hwaits.tryRoute_eq hg hdistinct]
      split
      · obtain hrest | ⟨hrest, m, hm, hend⟩ := ih fun m hm => hnodes m (List.mem_cons_of_mem _ hm)
        · exact .inl hrest
        · exact .inr ⟨hrest, m, List.mem_cons_of_mem _ hm, hend⟩
      · next hend => exact .inr ⟨rfl, n, List.mem_cons_self, g, hg, Nat.not_le.1 hend⟩

theorem completeDue_eq_self (h : ∀ r ∈ s.running, s.clock < r.finish) : job.completeDue s = s := by
  have hdue : due s = [] := by
    refine List.eq_nil_iff_forall_not_mem.2 fun r hr => ?_
    obtain ⟨hrunning, hend⟩ := mem_due.1 hr
    exact Nat.not_le.2 (h r hrunning) hend
  have hrunning : (s.running.filter fun r => s.clock < r.finish) = s.running :=
    List.filter_eq_self.2 fun r hr => decide_eq_true (h r hr)
  rw [completeDue]
  simp only [hdue, hrunning, List.foldl_nil, List.map_nil, List.append_nil]

/-- A state after a round. Before the limit no lock ends and no gate is completed, and gates that could be
admitted otherwise are deferred. -/
structure Paused (job : RoutingJob) (s : RoutingState) (limit : Nat) : Prop where
  orderly : Orderly job s
  unfinished : s.finished.length < job.circuit.size
  quiet : s.fabric.grid.Quiet s.clock limit
  running_ne : s.running ≠ []
  limit_le : ∀ r ∈ s.running, limit ≤ r.finish
  deferred : ∀ n, job.Admissible s n → ∃ g f, Deferred job n s.clock g f s.fabric

theorem live_of_admitAll {nodes : List Nat} (h : ∀ r ∈ s.running, s.clock < r.finish)
    (hoffer : job.admitAll nodes s = .ok (s', .ok ())) : ∀ r ∈ s'.running, s'.clock < r.finish := by
  induction nodes generalizing s with
  | nil =>
      simp only [admitAll, pure_eq_ok_iff, Prod.mk.injEq, and_true] at hoffer
      exact hoffer ▸ h
  | cons n rest ih =>
      obtain ⟨f, -, hoffer⟩ | ⟨a, hoffer⟩ := admitAll_cons hoffer
      · exact ih (s := { s with fabric := f }) h hoffer
      · refine ih (fun r hr => ?_) hoffer
        rcases List.mem_append.1 hr with hr | hr
        · exact h r hr
        · rw [List.mem_singleton.1 hr]
          exact a.lt_stop

/-- The clock does not jump over the end of a lock. -/
theorem jump_le_stop {g : LockGrid} {x : Hold} (hx : x ∈ g.holds) (ht : t < x.lock.stop) (finish : Nat) :
    jump g t finish ≤ x.lock.stop := by
  have hmem : x.lock.stop ∈ (g.holds.flatMap fun h => [h.lock.start, h.lock.stop]).filter (t < ·) :=
    List.mem_filter.2 ⟨List.mem_flatMap.2 ⟨x, hx, by simp⟩, decide_eq_true ht⟩
  obtain ⟨boundary, hboundary⟩ := exists_min? (List.ne_nil_of_mem hmem)
  rw [jump, LockGrid.nextBoundary?, hboundary]
  exact (Nat.min_le_left _ _).trans ((List.min?_eq_some_iff.1 hboundary).2 _ hmem)

namespace Round

variable {finish : Nat}

theorem clock_eq (h : Round job slacks s s' finish) : s'.clock = s.clock :=
  (admitAll_keeps h.admitAll_eq).1

theorem clock_lt (h : Round job slacks s s' finish) : ∀ r ∈ s'.running, s'.clock < r.finish := by
  refine live_of_admitAll (fun r hr => ?_) h.admitAll_eq
  exact of_decide_eq_true (List.mem_filter.1 hr).2

theorem mem_running (h : Round job slacks s s' finish) :
    (∃ r ∈ s'.running, r.finish = finish) ∧ ∀ r ∈ s'.running, finish ≤ r.finish := by
  obtain ⟨hmem, hle⟩ := List.min?_eq_some_iff.1 h.least_eq
  exact ⟨List.mem_map.1 hmem, fun r hr => hle _ (List.mem_map_of_mem hr)⟩

/-- How far the clock jumps after a round. -/
theorem jump_spec (h : Round job slacks s s' finish) : s'.clock < jump s'.fabric.grid s'.clock finish ∧
    jump s'.fabric.grid s'.clock finish ≤ finish := by
  obtain ⟨⟨r, hr, rfl⟩, -⟩ := h.mem_running
  exact RoutingJob.jump_spec (h.clock_lt r hr)

/-- A run goes on at the tick that the clock jumps to, if that is within the word. -/
theorem runFrom_jump (h : Round job slacks s s' finish) : job.runFrom jump slacks s =
    if jump s'.fabric.grid s'.clock finish ≤ Word.top
      then job.runFrom jump slacks (s'.moved (jump s'.fabric.grid s'.clock finish))
      else .error .overflow := by
  have hlt : s.clock < jump s'.fabric.grid s'.clock finish := h.clock_eq ▸ h.jump_spec.1
  rw [runFrom_of_admitAll h.unfinished h.admitAll_eq, if_neg h.length_ne, h.advance_eq]
  exact if_congr (and_iff_right hlt) rfl rfl

/-- A run gets from a round to the tick that the clock jumps to. -/
theorem reaches_jump (h : Round job slacks s s' finish)
    (htop : jump s'.fabric.grid s'.clock finish ≤ Word.top) :
    Reaches job jump slacks s (s'.moved (jump s'.fabric.grid s'.clock finish)) :=
  (reaches_of_ready h.admitAll_eq).tail (.advance (h.advance_eq true) h.jump_spec.1 htop)

theorem paused (h : Round job slacks s s' finish) (hjob : Regular job) (hs : Orderly job s) :
    Paused job s' (jump s'.fabric.grid s'.clock finish) := by
  have hcomplete := hs.step hjob (show Step job jump slacks s _ from .complete s)
  have hs' := hs.reaches hjob (show Reaches job jump slacks s s' from reaches_of_ready h.admitAll_eq)
  obtain ⟨⟨r, hr, -⟩, hle⟩ := h.mem_running
  obtain ⟨hclock, hfinished⟩ := admitAll_keeps h.admitAll_eq
  refine ⟨hs', Nat.lt_of_le_of_ne hs'.tracked.finished_length_le h.length_ne, ⟨hs'.begun.holds, ?_⟩,
    List.ne_nil_of_mem hr, fun r hr => h.jump_spec.2.trans (hle r hr), ?_⟩
  · intro x hx
    by_cases hstop : x.lock.stop ≤ s'.clock
    · exact .inl hstop
    · exact .inr (jump_le_stop hx (Nat.not_le.1 hstop) finish)
  · intro n hn
    -- a gate that may be offered admission after the round was offered it in the round
    have hbefore : job.Admissible (job.completeDue s) n := by
      refine ⟨hn.lt_size, fun p hp => ?_, fun r hr => ?_⟩
      · rw [← hfinished]
        exact hn.dependencies_finished p hp
      · exact hn.not_routed r (routes_of_admitAll h.admitAll_eq r hr)
    rw [hclock]
    refine (deferred_of_admitAll hjob.built hjob.staged hcomplete.tracked hcomplete.custody
      (ready_nodup _) (fun _ hn => mem_ready.1 hn) h.admitAll_eq n (mem_ready.2 hbefore)).resolve_left ?_
    rintro ⟨r, hr, heq⟩
    exact hn.not_routed r hr heq

end Round

namespace Paused

theorem limit_le_top (h : Paused job s limit) : limit ≤ Word.top := by
  obtain ⟨r, hr⟩ := List.exists_mem_of_ne_nil _ h.running_ne
  exact (h.limit_le r hr).trans (h.orderly.begun.finish_le r (h.orderly.tracked.running_routed r hr))

/-- A tick before the limit: nothing is due, and nothing is admitted. -/
theorem round_or_overflow (h : Paused job s limit) (hjob : Regular job) (ht : s.clock < t)
    (hlimit : t < limit) : (∃ finish, Round job slacks (s.moved t) (s.moved t) finish) ∨
      job.runFrom pace slacks (s.moved t) = .error .overflow ∧
        ∃ n g, job.Admissible s n ∧ job.circuit.gate? n = some g ∧ Word.top < t + max g.cycles 1 := by
  have hcomplete : job.completeDue (s.moved t) = s.moved t :=
    completeDue_eq_self fun r hr => hlimit.trans_le (h.limit_le r hr)
  have hready (n : Nat) (hn : n ∈ job.ready slacks (s.moved t)) : job.Admissible s n := by
    obtain ⟨hlt, hdeps, hrouted⟩ := mem_ready.1 hn
    exact ⟨hlt, hdeps, hrouted⟩
  have hwaits (n : Nat) (hn : n ∈ job.ready slacks (s.moved t)) :
      ∃ g, job.circuit.gate? n = some g ∧ job.Waits (s.moved t).fabric n (s.moved t).clock g := by
    obtain ⟨g, f, hdeferred⟩ := h.deferred n (hready n hn)
    exact ⟨g, hdeferred.gate_eq,
      hdeferred.waits_later hjob.prompt h.quiet h.orderly.begun.teleports ht hlimit⟩
  obtain hoffer | ⟨hoffer, n, hn, g, hg, hend⟩ := admitAll_of_waits (s := s.moved t)
    h.orderly.custody.distinct hwaits
  · obtain ⟨finish, hfinish⟩ := exists_min? (List.map_eq_nil_iff.not.2 h.running_ne)
    refine .inl ⟨finish, h.unfinished, ?_, h.unfinished.ne, hfinish⟩
    rw [hcomplete]
    exact hoffer
  · refine .inr ⟨?_, n, g, hready n hn, hg, hend⟩
    rw [runFrom, if_pos (by exact h.unfinished)]
    simp only [hcomplete, hoffer]
    rfl

/-- Tick by tick the limit is reached with nothing changed on the way, unless the end of a gate that waits
gets out of the word. -/
theorem skip (h : Paused job s limit) (hjob : Regular job) (ht : s.clock < t) (hle : t ≤ limit) :
    job.runFrom tick slacks (s.moved t) = job.runFrom tick slacks (s.moved limit) ∨
      job.runFrom tick slacks (s.moved t) = .error .overflow ∧
        ∃ n g, job.Admissible s n ∧ job.circuit.gate? n = some g ∧
          Word.top < limit + max g.cycles 1 := by
  induction hle using Nat.decreasingInduction with
  | self => exact .inl rfl
  | of_succ t hlimit ih =>
      obtain ⟨finish, hround⟩ | ⟨hrun, n, g, hn, hg, hend⟩ := h.round_or_overflow hjob ht hlimit
      · have hmove : job.runFrom tick slacks (s.moved t) = job.runFrom tick slacks (s.moved (t + 1)) :=
          hround.runFrom_eq (Nat.lt_succ_self t) (Nat.le_trans hlimit h.limit_le_top)
        rw [hmove]
        exact ih (ht.trans (Nat.lt_succ_self t))
      · exact .inr ⟨hrun, n, g, hn, hg, by omega⟩

end Paused

/-- Tick by tick a run comes to the same as with a clock that jumps. -/
theorem Orderly.runFrom_tick (h : Orderly job s) (hjob : Regular job) :
    job.runFrom tick slacks s = job.runFrom jump slacks s ∨
      job.runFrom tick slacks s = .error .overflow ∧
        ∀ f r, job.runFrom jump slacks s ≠ .ok (f, .ok r) := by
  induction hleft : Word.top - s.clock using Nat.strong_induction_on generalizing s with
  | _ left ih =>
      obtain ⟨s', finish, hround⟩ | ⟨result, hresult⟩ | ⟨s', hlt, htop, hreach, hsame⟩ :=
        round_or_runFrom_eq job slacks s
      · -- the two runs part after the round and meet again at the tick that the clock jumps to
        have hpaused := hround.paused hjob h
        have htop := hpaused.limit_le_top
        have hclock := hround.clock_eq
        obtain ⟨hlt, -⟩ := hround.jump_spec
        have hlimit := h.reaches hjob (hround.reaches_jump htop)
        have hjump : job.runFrom jump slacks s = job.runFrom jump slacks
            (s'.moved (jump s'.fabric.grid s'.clock finish)) := hround.runFrom_eq (hclock ▸ hlt) htop
        have htick : job.runFrom tick slacks s = job.runFrom tick slacks (s'.moved (s'.clock + 1)) :=
          hround.runFrom_eq (hclock ▸ Nat.lt_succ_self _) (Nat.le_trans hlt htop)
        rw [hjump, htick]
        obtain hskip | ⟨hrun, n, g, hn, hg, hend⟩ := hpaused.skip hjob (Nat.lt_succ_self _) hlt
        · rw [hskip]
          exact ih (Word.top - jump s'.fabric.grid s'.clock finish) (by omega) hlimit rfl
        · exact .inr ⟨hrun, hlimit.runFrom_ne_ok hjob ⟨hn.lt_size, hn.dependencies_finished, hn.not_routed⟩
            hg hend⟩
      · exact .inl ((hresult tick).trans (hresult jump).symm)
      · rw [hsame tick, hsame jump]
        exact ih _ (by omega) (h.reaches hjob hreach) rfl

end RoutingJob

/-- The clock jumps over no tick at which a gate could be admitted. Where teleports are off or at the start
of a gate, gates have two operands at most, factories beside another operand are bound before, and handles
are distinct, routing comes to the same tick by tick. The only other case is that a gate waits until its
end is out of the word, and then routing does not succeed either way. -/
theorem run_skips_no_admission {c : Circuit} {l : Layout} {m : Mapping} {schedule : Schedule}
    {settings : RoutingSettings} {job : RoutingJob} {f : Fabric} (hbuilt : c.Built) (hstaged : c.Staged)
    (hdistinct : m.pool.Distinct) (hprompt : settings.teleport.Prompt)
    (hstart : RoutingJob.start c l m schedule settings = .ok (job, f)) :
    job.runAt RoutingJob.tick f = job.run f ∨
      job.runAt RoutingJob.tick f = .error .overflow ∧ ∀ f' r, job.run f ≠ .ok (f', .ok r) := by
  obtain ⟨grid, hgrid, hjob, rfl⟩ := RoutingJob.start_eq_ok_iff.1 hstart
  have hregular : job.Regular := by
    rw [hjob]
    exact ⟨hbuilt, hstaged, hprompt⟩
  obtain ⟨slacks, hslacks⟩ := hregular.built.exists_slacks
  rw [← RoutingJob.runAt_jump, RoutingJob.runAt_eq_runFrom hslacks, RoutingJob.runAt_eq_runFrom hslacks]
  have horderly : job.Orderly ⟨0, 0, ⟨grid, m, []⟩, [], [], []⟩ :=
    RoutingJob.orderly_start hdistinct (LockGrid.holds_ofLayout hgrid) rfl
  exact horderly.runFrom_tick hregular

namespace Handover

/-- A factory makes a state that waits for a corridor, and is handed on to a second production. -/
def circuit : Circuit :=
  ((((Circuit.empty.append (.production (.factory "T" 0) 3)).append
    (.joint "cx" [.register "b", .register "c"] 4)).append
    (.joint "inject" [.register "a", .factory "T" 0] 2)).append (.resetOf (.factory "T" 0))).append
    (.production (.factory "T" 1) 3)

def layout : Layout :=
  .addUnit (.ofTiling ⟨2, 4, [.isolated 0 (.taken (.factory 0) ⟨0, 0, 1, 1⟩),
    .isolated 1 (.taken .register ⟨0, 1, 1, 4⟩), .isolated 2 (.taken .route ⟨1, 0, 2, 4⟩)], 3⟩ 0)
    ⟨"T", 1, 1, 3⟩ 0

def mapping : Mapping :=
  ⟨.empty, [(.register "a", ⟨0, 3⟩), (.register "b", ⟨0, 1⟩), (.register "c", ⟨0, 2⟩)],
    ⟨[⟨0, "T", ⟨0, 0⟩, 3, 0, .free⟩]⟩⟩

def schedule : Schedule where
  cycles := 9
  channels := 2
  layers := [[0, 1], [], [], [2], [], [3], [4], [], []]
  starts := [0, 0, 3, 5, 6]
  ends := [3, 4, 5, 6, 9]
  bindings := [some 0, none, none, none, some 0]

def routing : Routing where
  cycles := 10
  routes := [
    ⟨0, 0, 3, [⟨0, 0⟩], [], [⟨⟨0, 0⟩, 0, 3⟩]⟩,
    ⟨1, 0, 4, [⟨0, 1⟩, ⟨1, 1⟩, ⟨1, 2⟩, ⟨0, 2⟩], [],
      [⟨⟨0, 1⟩, 0, 4⟩, ⟨⟨0, 2⟩, 0, 4⟩, ⟨⟨1, 1⟩, 0, 4⟩, ⟨⟨1, 2⟩, 0, 4⟩]⟩,
    ⟨2, 4, 6, [⟨0, 3⟩, ⟨1, 3⟩, ⟨1, 2⟩, ⟨1, 1⟩, ⟨1, 0⟩, ⟨0, 0⟩], [],
      [⟨⟨0, 3⟩, 4, 6⟩, ⟨⟨0, 0⟩, 4, 6⟩, ⟨⟨1, 3⟩, 4, 6⟩, ⟨⟨1, 2⟩, 4, 6⟩, ⟨⟨1, 1⟩, 4, 6⟩,
        ⟨⟨1, 0⟩, 4, 6⟩]⟩,
    ⟨3, 6, 7, [⟨0, 0⟩], [], [⟨⟨0, 0⟩, 6, 7⟩]⟩,
    ⟨4, 7, 10, [⟨0, 0⟩], [], [⟨⟨0, 0⟩, 7, 10⟩]⟩]
  layers := [[0, 1], [], [], [], [2], [], [3], [4], [], []]
  teleports := []

theorem built_circuit : circuit.Built :=
  ((((Circuit.Built.empty.extend (by decide)).extend (by decide)).extend (by decide)).extend (by decide)).extend
    (by decide)

end Handover

theorem handover_skips_no_admission : Handover.circuit.Built ∧ Handover.circuit.Staged ∧
    Handover.mapping.pool.Distinct ∧ ({} : RoutingSettings).teleport.Prompt ∧ ∃ job f f',
      RoutingJob.start Handover.circuit Handover.layout Handover.mapping Handover.schedule {} =
          .ok (job, f) ∧
        job.run f = .ok (f', .ok Handover.routing) ∧
        job.runAt RoutingJob.tick f = .ok (f', .ok Handover.routing) := by
  have hstaged : Handover.circuit.Staged := by decide +kernel
  have hdistinct : Handover.mapping.pool.Distinct := by decide
  have hprompt : ({} : RoutingSettings).teleport.Prompt := by decide
  have h : (do
      let (job, f) ← RoutingJob.start Handover.circuit Handover.layout Handover.mapping
        Handover.schedule {}
      return (← job.run f).2) = .ok (.ok Handover.routing) := by
    decide +kernel
  obtain ⟨⟨job, f⟩, hstart, h⟩ := bind_eq_ok_iff.1 h
  obtain ⟨⟨f', r⟩, hrun, h⟩ := bind_eq_ok_iff.1 h
  cases h
  refine ⟨Handover.built_circuit, hstaged, hdistinct, hprompt, job, f, f', hstart, hrun, ?_⟩
  obtain hsame | ⟨-, hfails⟩ :=
    run_skips_no_admission Handover.built_circuit hstaged hdistinct hprompt hstart
  · exact hsame.trans hrun
  · exact absurd hrun (hfails f' Handover.routing)

namespace LateTeleport

/-- A gate whose teleport crosses the corridor of another gate. In the last cycle of the gate it is held for
less time the later the gate starts. -/
def circuit : Circuit :=
  (Circuit.empty.append (.joint "cx" [.register "c", .register "b"] 4)).append
    (.joint "cx" [.register "a", .register "d"] 4)

def layout : Layout :=
  .ofTiling ⟨5, 9, [.isolated 0 (.taken .register ⟨0, 4, 1, 5⟩),
    .isolated 1 (.taken .register ⟨1, 0, 2, 1⟩), .isolated 2 (.taken .route ⟨1, 1, 2, 2⟩),
    .isolated 3 (.taken .route ⟨1, 4, 2, 5⟩), .isolated 4 (.taken .route ⟨2, 0, 3, 9⟩),
    .isolated 5 (.taken .route ⟨3, 4, 4, 5⟩), .isolated 6 (.taken .route ⟨3, 7, 4, 8⟩),
    .isolated 7 (.taken .register ⟨4, 4, 5, 5⟩), .isolated 8 (.taken .register ⟨4, 7, 5, 8⟩)], 9⟩ 0

def mapping : Mapping :=
  ⟨.empty, [(.register "a", ⟨1, 0⟩), (.register "b", ⟨4, 4⟩), (.register "c", ⟨0, 4⟩),
    (.register "d", ⟨4, 7⟩)], ⟨[]⟩⟩

def schedule : Schedule := ⟨4, 2, [[0, 1], [], [], []], [0, 0], [4, 4], [none, none]⟩

def settings : RoutingSettings := { teleport := { policy := .alap } }

theorem built_circuit : circuit.Built :=
  (Circuit.Built.empty.extend (by decide)).extend (by decide)

end LateTeleport

namespace ThreeOperands

/-- The first leg of a gate between three operands takes a way that leaves none for the second, until another
gate holds that way. -/
def circuit : Circuit :=
  (Circuit.empty.append (.joint "ccz" [.register "a", .register "b", .register "c"] 2)).append
    (.joint "cx" [.register "d", .register "e"] 3)

def layout : Layout :=
  .ofTiling ⟨4, 4, [.isolated 0 (.taken .register ⟨0, 0, 1, 1⟩),
    .isolated 1 (.taken .register ⟨0, 3, 1, 4⟩), .isolated 2 (.taken .route ⟨1, 0, 2, 4⟩),
    .isolated 3 (.taken .register ⟨2, 1, 3, 4⟩), .isolated 4 (.taken .route ⟨3, 1, 4, 4⟩)], 5⟩ 0

def mapping : Mapping :=
  ⟨.empty, [(.register "a", ⟨2, 3⟩), (.register "b", ⟨2, 1⟩), (.register "c", ⟨0, 0⟩),
    (.register "d", ⟨2, 2⟩), (.register "e", ⟨0, 3⟩)], ⟨[]⟩⟩

def schedule : Schedule := ⟨3, 2, [[0, 1], [], []], [0, 0], [2, 3], [none, none]⟩

def settings : RoutingSettings := { deadlockThreshold := 1 }

theorem built_circuit : circuit.Built :=
  (Circuit.Built.empty.extend (by decide)).extend (by decide)

end ThreeOperands

namespace ChosenFactory

/-- A gate chooses a factory behind a corridor that is held, and another one once a later gate has taken the
first. -/
def circuit : Circuit :=
  ((((Circuit.empty.append (.joint "cx" [.register "c", .register "d"] 3)).append
    (.joint "inject" [.register "a", .factory "T" 0] 1)).append (.resetOf (.factory "T" 0))).append
    (.joint "inject" [.register "b", .factory "T" 1] 3)).append
    (.joint "cx" [.register "c", .register "d"] 1)

def layout : Layout :=
  .addUnit (.addUnit (.ofTiling ⟨3, 5, [.isolated 0 (.taken (.factory 0) ⟨0, 0, 1, 1⟩),
    .isolated 1 (.taken .register ⟨0, 1, 1, 3⟩), .isolated 2 (.taken (.factory 1) ⟨0, 3, 1, 4⟩),
    .isolated 3 (.taken .register ⟨0, 4, 1, 5⟩), .isolated 4 (.taken .route ⟨1, 0, 2, 5⟩),
    .isolated 5 (.taken .register ⟨2, 2, 3, 3⟩)], 6⟩ 0) ⟨"T", 1, 1, 1⟩ 0) ⟨"T", 1, 1, 2⟩ 2

def mapping : Mapping :=
  ⟨.empty, [(.register "a", ⟨0, 4⟩), (.register "b", ⟨0, 1⟩), (.register "c", ⟨0, 2⟩),
    (.register "d", ⟨2, 2⟩)], ⟨[⟨0, "T", ⟨0, 0⟩, 1, 0, .free⟩, ⟨1, "T", ⟨0, 3⟩, 2, 0, .free⟩]⟩⟩

def schedule : Schedule where
  cycles := 8
  channels := 1
  layers := [[0], [], [], [1], [2, 4], [3], [], []]
  starts := [0, 3, 4, 5, 4]
  ends := [3, 4, 5, 8, 5]
  bindings := [none, some 0, none, some 0, none]

theorem built_circuit : circuit.Built :=
  ((((Circuit.Built.empty.extend (by decide)).extend (by decide)).extend (by decide)).extend (by decide)).extend
    (by decide)

end ChosenFactory

/-- In general the clock does jump over ticks at which a gate could be admitted: with teleports at the end of
a gate, with three operands, and with a factory that is chosen beside another operand. -/
theorem jump_skips_admissions :
    (LateTeleport.circuit.Built ∧ LateTeleport.circuit.Staged ∧
      RoutingJob.cyclesAt RoutingJob.jump LateTeleport.circuit LateTeleport.layout LateTeleport.mapping
        LateTeleport.schedule LateTeleport.settings = .ok (.ok 8) ∧
      RoutingJob.cyclesAt RoutingJob.tick LateTeleport.circuit LateTeleport.layout LateTeleport.mapping
        LateTeleport.schedule LateTeleport.settings = .ok (.ok 5)) ∧
    (ThreeOperands.circuit.Built ∧
      RoutingJob.cyclesAt RoutingJob.jump ThreeOperands.circuit ThreeOperands.layout
        ThreeOperands.mapping ThreeOperands.schedule ThreeOperands.settings =
          .ok (.error (.deadlock ⟨5, 1⟩)) ∧
      RoutingJob.cyclesAt RoutingJob.tick ThreeOperands.circuit ThreeOperands.layout
        ThreeOperands.mapping ThreeOperands.schedule ThreeOperands.settings = .ok (.ok 3)) ∧
    (ChosenFactory.circuit.Built ∧ ChosenFactory.mapping.pool.Distinct ∧
      RoutingJob.cyclesAt RoutingJob.jump ChosenFactory.circuit ChosenFactory.layout
        ChosenFactory.mapping ChosenFactory.schedule {} = .ok (.ok 5) ∧
      RoutingJob.cyclesAt RoutingJob.tick ChosenFactory.circuit ChosenFactory.layout
        ChosenFactory.mapping ChosenFactory.schedule {} = .ok (.ok 4)) := by
  refine ⟨⟨LateTeleport.built_circuit, ?_, ?_, ?_⟩, ⟨ThreeOperands.built_circuit, ?_, ?_⟩,
    ⟨ChosenFactory.built_circuit, by decide, ?_, ?_⟩⟩ <;> decide +kernel

end SurfaceFabric
