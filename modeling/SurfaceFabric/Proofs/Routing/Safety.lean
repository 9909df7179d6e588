import SurfaceFabric.Proofs.Failure
import SurfaceFabric.Proofs.Mapping.Accommodation
import SurfaceFabric.Proofs.Routing.Deadlock
import SurfaceFabric.Proofs.Routing.Tenure

/-!
How a run may fail. On a mapping that accommodates the circuit the operands of a gate are found in cells of their
own, so every leg has two ends. The clock is never past the cycles of the gates routed so far, until no gate runs
any more; from then on there are only idle ticks, up to a deadlock. So a run does not fault if a word has room for
all cycles and for these ticks, and it is refused by a deadlock only.
-/

namespace SurfaceFabric

theorem Mapping.Seated.cells_eq {m : Mapping} {operands : List Symbol} {cells : List Cell} {tickets : List Ticket}
    (h : m.Seated false operands cells tickets) :
    List.Forall₂ (fun s e => s.isFactory = false → m.cell? s = some e) operands cells := by
  induction h with
  | nil => exact .nil
  | seated hs _ ih =>
      refine .cons (fun hfactory => ?_) ih
      rwa [Mapping.coordinate?, if_neg (by simp [hfactory])] at hs
  | unbound _ hreset => cases hreset
  | reserved _ hfactory _ _ _ _ ih => exact .cons (fun hnot => absurd hfactory (by simp [hnot])) ih

namespace RoutingJob

variable {job : RoutingJob} {pace : Pace} {slacks : List Nat} {s s' : RoutingState} {n t : Nat} {f : Fabric}
variable {m m' : Mapping} {B : Prop} {P : Fault → Prop}

/-! ### Operands in cells of their own -/

theorem accommodates_commitAll (h : m.Accommodates job.circuit) {isReset : Bool} {operands : List Symbol}
    {cells : List Cell} {tickets : List Ticket}
    (hr : job.resolve n isReset operands [] [] m = (.found cells, tickets, m')) :
    ({ m with pool := m'.pool.commitAll tickets } : Mapping).Accommodates job.circuit :=
  h.withPool rfl (resolve_binds h.kept.distinct.pending hr).sites_eq (resolve_kept h.kept hr).commitAll

/-- The operands of a gate are found in different cells. -/
theorem nodup_of_resolve (h : m.Accommodates job.circuit) (hbuilt : job.circuit.Built) {g : Gate}
    (hg : job.circuit.gate? n = some g) {cells : List Cell} {tickets : List Ticket}
    (hr : job.resolve n g.isReset g.operands [] [] m = (.found cells, tickets, m')) : cells.Nodup := by
  cases hreset : g.isReset with
  | true =>
      obtain ⟨w, hw, -⟩ := hbuilt.reset_operands hg hreset
      rw [hreset, hw] at hr
      obtain ⟨-, -, rfl | ⟨e, -, rfl⟩⟩ := resolve_reset hr
      · exact List.nodup_nil
      · exact List.nodup_singleton e
  | false =>
      rw [hreset] at hr
      obtain ⟨found, hcells, hholds⟩ := resolve_holds h.kept.distinct.pending hr
      obtain ⟨found', new, hcells', -, -, hseated⟩ := seated_of_resolve (.refl m) hr
      rw [List.nil_append] at hcells hcells'
      subst hcells hcells'
      -- once committed, each operand is in the place that was found for it
      have hplaces : List.Forall₂ ({ m with pool := m'.pool.commitAll tickets } : Mapping).Places
          g.operands cells := by
        obtain ⟨hlength, hholds⟩ := List.forall₂_iff_zip.1 hholds
        refine List.forall₂_iff_zip.2 ⟨hlength, fun {s e} hmem => ?_⟩
        unfold Mapping.Places
        split
        · next hfactory => exact hholds hmem hfactory
        · next hfactory => exact (List.forall₂_iff_zip.1 hseated.cells_eq).2 hmem (by simpa using hfactory)
      exact (List.rel_nodup (accommodates_commitAll h hr).biUnique hplaces).1 (hbuilt.nodup_operands hg)

/-! ### Admission -/

/-- Two operands of a gate that a leg would join are found in one cell. -/
def SharesCell (job : RoutingJob) (f : Fabric) (n : Nat) : Prop :=
  ∃ g cells tickets m, job.circuit.gate? n = some g ∧
    job.resolve n g.isReset g.operands [] [] f.mapping = (.found cells, tickets, m) ∧ ¬cells.IsChain (· ≠ ·)

theorem failsOnly_legs {grid : LockGrid} {shared blocked cells : List Cell} {start stop : Nat}
    (hshared : ¬cells.IsChain (· ≠ ·) → P .sharedCell) (hinside : ∀ c ∈ cells, grid.inside c = true) :
    FailsOnly P (job.legs grid shared start stop blocked cells) := by
  induction cells generalizing blocked with
  | nil => exact .pure _
  | cons a rest ih =>
      cases rest with
      | nil => exact .pure _
      | cons b rest =>
          rw [legs]
          rw [List.isChain_cons_cons] at hshared
          cases hleg : job.leg? grid shared start stop (blocked.filter fun c => c ≠ a ∧ c ≠ b) a b with
          | none => exact .pure _
          | some leg =>
              obtain ⟨q, -, -, hpath⟩ := leg?_isPath (hinside a List.mem_cons_self) hleg
              refine .ite (fun hshort => .error (hshared fun h => ?_)) fun _ => .bind ?_ fun _ _ => .pure _
              · have htwo := two_le_length_of_isPath h.1 hpath
                omega
              · exact ih (fun h => hshared fun hall => h hall.2) fun c hc => hinside c (List.mem_cons_of_mem _ hc)

theorem failsOnly_plan? {start stop : Nat} {cells : List Cell}
    (hshared : ¬cells.IsChain (· ≠ ·) → P .sharedCell) : FailsOnly P (job.plan? f n start stop cells) := by
  refine .ite (fun _ => .pure _) fun hfree => ?_
  simp only [Bool.not_eq_true', Bool.not_eq_false, List.all_eq_true] at hfree
  refine (failsOnly_legs hshared fun c hc => (LockGrid.isFree_iff.1 (hfree c hc)).1).bind fun found _ => ?_
  cases found with
  | none => exact .pure _
  | some legs => exact .pure _

/-- Trying to admit a gate fails if it ends out of the word, and if two operands are found in one cell. -/
theorem failsOnly_tryRoute (hshared : job.SharesCell f n → P .sharedCell)
    (hword : ∀ g, job.circuit.gate? n = some g → Word.top < t + max g.cycles 1 → P .overflow) :
    FailsOnly P (job.tryRoute f n t) := by
  unfold tryRoute
  cases hg : job.circuit.gate? n with
  | none => exact .pure _
  | some g =>
      have hstop : FailsOnly P (Word.add t (max g.cycles 1)) :=
        .ite (fun _ => .pure _) fun hend => .error (hword g hg (Nat.not_le.1 hend))
      refine hstop.bind fun stop _ => ?_
      obtain ⟨found, tickets, m, hr⟩ : ∃ found tickets m,
        job.resolve n g.isReset g.operands [] [] f.mapping = (found, tickets, m) := ⟨_, _, _, rfl⟩
      dsimp only
      rw [hr]
      cases found with
      | found cells =>
          refine (failsOnly_plan? fun h => hshared ⟨g, cells, tickets, m, hg, hr, h⟩).bind fun plan _ => ?_
          cases plan with
          | none => exact .pure _
          | some plan => exact .pure _
      | lacking => exact .pure _
      | unmapped u => exact .pure _

/-- Symbols stay accommodated whatever a run does. -/
theorem accommodates_step (hbuilt : job.circuit.Built) (h : s.fabric.mapping.Accommodates job.circuit)
    (hstep : Step job pace slacks s s') : s'.fabric.mapping.Accommodates job.circuit := by
  cases hstep with
  | complete =>
      show ((due s).foldl job.complete s.fabric).mapping.Accommodates job.circuit
      generalize s.fabric = f at h ⊢
      induction due s generalizing f with
      | nil => exact h
      | cons r rest ih =>
          obtain ⟨hkept, hsites, -⟩ := complete_holds hbuilt h.kept r
          exact ih _ (h.withPool (complete_cells job f r) hsites hkept)
  | wait _ htry =>
      rw [tryRoute_waits h.kept.distinct htry]
      exact h
  | enter _ a =>
      exact h.withPool (tryRoute_cells (tryRoute_eq_some_iff.2 ⟨a, rfl, rfl⟩)) (a.binds h.kept.distinct).sites_eq
        (a.kept h.kept)
  | advance => exact h

theorem accommodates_reaches (hbuilt : job.circuit.Built) (h : s.fabric.mapping.Accommodates job.circuit)
    (hreach : Reaches job pace slacks s s') : s'.fabric.mapping.Accommodates job.circuit := by
  induction hreach with
  | refl => exact h
  | tail _ hstep ih => exact accommodates_step hbuilt ih hstep

/-! ### Rounds -/

variable {grid : LockGrid} {nodes : List Nat}

/-- A round of admissions keeps time. -/
theorem Advancing.admitAll (h : Advancing job grid m s) (hbuilt : job.circuit.Built) (hnodup : nodes.Nodup)
    (hnodes : ∀ n ∈ nodes, job.Admissible s n) (hoffer : job.admitAll nodes s = .ok (s', .ok ())) :
    Advancing job grid m s' ∧ s'.stalled = s.stalled := by
  induction nodes generalizing s with
  | nil =>
      simp only [RoutingJob.admitAll, pure_eq_ok_iff, Prod.mk.injEq, and_true] at hoffer
      exact ⟨hoffer ▸ h, hoffer ▸ rfl⟩
  | cons n rest ih =>
      obtain ⟨hn, hrest⟩ := List.nodup_cons.1 hnodup
      have hlater (k : Nat) (hk : k ∈ rest) := hnodes k (List.mem_cons_of_mem _ hk)
      obtain ⟨f, htry, hoffer⟩ | ⟨a, hoffer⟩ := admitAll_cons hoffer
      · exact ih (s := { s with fabric := f }) (h.wait htry) hrest
          (fun k hk => ⟨(hlater k hk).1, (hlater k hk).2, (hlater k hk).3⟩) hoffer
      · exact ih (s := s.enter a)
          (h.enter hbuilt (hnodes n List.mem_cons_self) a) hrest
          (fun k hk => (hlater k hk).enter (ne_of_mem_of_not_mem hk hn).symm a) hoffer

/-- A round fails only if two operands are found in one cell, or if the cycles do not fit into a word. -/
theorem Advancing.failsOnly_admitAll (h : Advancing job grid m s) (hbuilt : job.circuit.Built)
    (hnodup : nodes.Nodup) (hnodes : ∀ n ∈ nodes, job.Admissible s n)
    (hshared : ∀ s' n, Reaches job jump slacks s s' → job.Admissible s' n → job.SharesCell s'.fabric n → P .sharedCell)
    (hword : Word.top < job.circuit.totalCycles → P .overflow) : FailsOnly P (job.admitAll nodes s) := by
  induction nodes generalizing s with
  | nil => exact .pure _
  | cons n rest ih =>
      obtain ⟨hn, hrest⟩ := List.nodup_cons.1 hnodup
      have hfirst := hnodes n List.mem_cons_self
      have hlater (k : Nat) (hk : k ∈ rest) := hnodes k (List.mem_cons_of_mem _ hk)
      rw [RoutingJob.admitAll]
      refine (failsOnly_tryRoute (hshared s n .refl hfirst) fun g hg hend =>
        hword (hend.trans_le (h.clock_add_le hbuilt hfirst hg))).bind fun attempt htry => ?_
      obtain ⟨f, result⟩ := attempt
      cases result with
      | error e => exact .pure _
      | ok found =>
          cases found with
          | none =>
              exact ih (h.wait htry) hrest (fun k hk => ⟨(hlater k hk).1, (hlater k hk).2, (hlater k hk).3⟩)
                fun s' n hreach => hshared s' n (.head (.wait hfirst htry) hreach)
          | some r =>
              obtain ⟨a, rfl, rfl⟩ := tryRoute_eq_some_iff.1 htry
              exact ih (h.enter hbuilt hfirst a) hrest
                (fun k hk => (hlater k hk).enter (ne_of_mem_of_not_mem hk hn).symm a)
                fun s' n hreach => hshared s' n (.head (.enter hfirst a) hreach)

/-- A run that is getting on still is where the clock jumps to. -/
theorem Advancing.round (h : Advancing job grid m s) (hbuilt : job.circuit.Built) {finish : Nat}
    (hround : Round job slacks s s' finish) : jump s'.fabric.grid s'.clock finish ≤ job.circuit.totalCycles ∧
      (jump s'.fabric.grid s'.clock finish ≤ Word.top →
        Advancing job grid m (s'.moved (jump s'.fabric.grid s'.clock finish))) := by
  obtain ⟨hs', -⟩ := h.complete.admitAll hbuilt (ready_nodup _) (fun _ hn => mem_ready.1 hn) hround.admitAll_eq
  obtain ⟨⟨r, hr, rfl⟩, -⟩ := hround.mem_running
  have hle := hround.jump_spec.2.trans (hs'.finish_le r hr)
  exact ⟨hle.trans hs'.spent_le, fun htop => ⟨h.tracked.reaches (hround.reaches_jump htop), hs'.cells_eq, hs'.bare_eq,
    hs'.manned, hle, hs'.finish_le⟩⟩

/-! ### Whole runs -/

/-- A run fails only if two operands are found in one cell, or if a word has no room for all cycles and for the idle
ticks that a deadlock takes. -/
theorem Advancing.failsOnly_runFrom (h : Advancing job grid m s) (hbuilt : job.circuit.Built)
    (hstalled : s.stalled = 0)
    (hshared : ∀ s' n, Reaches job jump slacks s s' → job.Admissible s' n → job.SharesCell s'.fabric n → P .sharedCell)
    (hword : Word.top < job.circuit.totalCycles + job.settings.deadlockThreshold + 1 → P .overflow) :
    FailsOnly P (job.runFrom jump slacks s) := by
  induction hleft : Word.top - s.clock using Nat.strong_induction_on generalizing s with
  | _ left ih =>
      have hadmissible (n : Nat) (hn : n ∈ job.ready slacks (job.completeDue s)) := mem_ready.1 hn
      cases turn job slacks s with
      | ended hsize =>
          rw [runFrom, if_neg hsize]
          exact .pure _
      | fault hsize hoffer =>
          rw [runFrom_of_fault hsize hoffer]
          exact .error (h.complete.failsOnly_admitAll hbuilt (ready_nodup _) hadmissible
            (fun s' n hreach => hshared s' n (.head (.complete s) hreach)) (fun hlt => hword (by omega)) _ hoffer)
      | refusal hsize hoffer =>
          rw [runFrom_of_refusal hsize hoffer]
          exact .pure _
      | finished hsize hoffer hdone =>
          rw [runFrom_of_finished hsize hoffer hdone]
          exact .pure _
      | @round s' finish hturn =>
          obtain ⟨hle, hnext⟩ := h.round hbuilt hturn
          rw [hturn.runFrom_jump]
          refine .ite (fun htop => ?_) fun htop => .error (hword (by omega))
          have hclock := hturn.clock_eq
          have hlt := hturn.jump_spec.1
          exact ih (Word.top - jump s'.fabric.grid s'.clock finish) (by omega) (hnext htop) rfl
            (fun s'' n hreach => hshared s'' n ((hturn.reaches_jump htop).trans hreach)) rfl
      | @idle s' hsize hoffer hopen hidle =>
          obtain ⟨hadvancing, hsame⟩ := h.complete.admitAll hbuilt (ready_nodup _) hadmissible hoffer
          have hstall := stalled_of_admitAll h.tracked h.manned hoffer hopen hidle
          obtain ⟨f, d, hrun, -⟩ | ⟨hrun, hover⟩ := runFrom_of_stalled hsize hoffer hstall jump
          · exact .of_eq_ok hrun
          · rw [hrun]
            refine .error (hword ?_)
            have hnone : s'.stalled = 0 := hsame.trans hstalled
            obtain htop | ⟨length, htop, rfl | ⟨n, g, hn, hg, rfl⟩⟩ := hover
            · rw [hnone] at htop
              omega
            · have hle := hadvancing.clock_le.trans hadvancing.spent_le
              omega
            · have hle := hadvancing.clock_add_le hbuilt hn hg
              omega

theorem cells_of_reaches (h : Reaches job pace slacks s s') : s'.fabric.mapping.cells = s.fabric.mapping.cells := by
  induction h with
  | refl => rfl
  | tail _ hstep ih =>
      rw [← ih]
      cases hstep with
      | complete => exact (foldl_complete_keeps job _ _).1
      | wait _ htry => exact tryRoute_cells htry
      | enter _ a => exact tryRoute_cells (tryRoute_eq_some_iff.2 ⟨a, rfl, rfl⟩)
      | advance => rfl

/-- A run is refused by a deadlock, or for a symbol without a cell. -/
theorem refusal_of_runFrom {e : CompileError} (h : job.runFrom jump slacks s = .ok (f, .error e)) :
    (∃ d, e = .deadlock d) ∨ ∃ n g u, job.circuit.gate? n = some g ∧ u ∈ g.operands ∧ u.isFactory = false ∧
      s.fabric.mapping.cell? u = none ∧ e = .unmapped u := by
  obtain ⟨s₁, s', hreach, -, hoffer | ⟨-, -, -, hd⟩⟩ := reaches_of_refusal h
  · obtain ⟨f, f', n, hn, hkeep, htry⟩ := admitAll_error hoffer
    obtain ⟨hnone, -⟩ | ⟨g, u, hg, hu, hfactory, hnone, he⟩ := tryRoute_error htry
    · obtain ⟨g, hg⟩ := Circuit.gate?_isSome (mem_ready.1 hn).lt_size
      rw [hnone] at hg
      cases hg
    · refine .inr ⟨n, g, u, hg, hu, hfactory, ?_, he⟩
      rwa [Mapping.coordinate?, if_neg (by simp [hfactory]), Mapping.cell?, hkeep,
        cells_of_reaches (hreach.tail (.complete s₁))] at hnone
  · exact .inl ⟨_, hd⟩

theorem failsOnly_start {c : Circuit} {l : Layout} {schedule : Schedule} {settings : RoutingSettings}
    (hB : B → l.height * l.width ≤ Word.top) :
    FailsOnly (Fault.Allowed B) (start c l m schedule settings) :=
  ((Word.failsOnly_mul hB).bind fun _ _ => .pure _).bind fun _ _ => .pure _

theorem advancing_start (job : RoutingJob) (f : Fabric) (hholds : f.grid.holds = []) :
    Advancing job f.grid.bare f.mapping ⟨0, 0, f, [], [], []⟩ :=
  ⟨tracked_start job f, rfl, rfl, manned_of_holds_eq_nil hholds, Nat.zero_le _, by simp⟩

theorem failsOnly_run (hbuilt : job.circuit.Built) (haccommodates : f.mapping.Accommodates job.circuit)
    (hholds : f.grid.holds = [])
    (hB : B → job.circuit.totalCycles + job.settings.deadlockThreshold + 1 ≤ Word.top) :
    FailsOnly (Fault.Allowed B) (job.run f) := by
  obtain ⟨slacks, hslacks⟩ := hbuilt.exists_slacks
  refine (FailsOnly.of_eq_ok hslacks).bind fun slacks _ =>
    (advancing_start job f hholds).failsOnly_runFrom hbuilt rfl ?_ ?_
  · rintro s n hreach - ⟨g, cells, tickets, m, hg, hr, hshared⟩
    exact absurd (nodup_of_resolve (accommodates_reaches hbuilt haccommodates hreach) hbuilt hg hr).isChain hshared
  · intro hover hb
    exact absurd (hB hb) (Nat.not_le.2 hover)

theorem deadlock_of_run (hbuilt : job.circuit.Built) (haccommodates : f.mapping.Accommodates job.circuit)
    (hholds : f.grid.holds = []) {f' : Fabric} {e : CompileError} (h : job.run f = .ok (f', .error e)) :
    ∃ d, e = .deadlock d ∧ 0 < d.waiting ∧ d.waiting ≤ job.circuit.size := by
  obtain ⟨slacks, -, h⟩ := bind_eq_ok_iff.1 h
  obtain ⟨d, rfl⟩ | ⟨n, g, u, hg, hu, hfactory, hnone, -⟩ := refusal_of_runFrom h
  case inr =>
    obtain ⟨cell, hcell⟩ := haccommodates.located n g hg u hu hfactory
    rw [hnone] at hcell
    cases hcell
  obtain ⟨s, hreach, hstalled, -, rfl⟩ :=
    stalled_of_runFrom (tracked_start job f) (manned_of_holds_eq_nil hholds) h
  have htracked := (tracked_start job f).reaches hreach
  have hready : job.ready slacks s ≠ [] := htracked.exists_ready hbuilt hstalled.idle hstalled.unfinished
  have hsub : job.ready slacks s ⊆ List.range job.circuit.size := fun n hn =>
    List.mem_range.2 (mem_ready.1 hn).lt_size
  have hle := ((ready_nodup s).subperm hsub).length_le
  rw [List.length_range] at hle
  exact ⟨_, rfl, List.length_pos_of_ne_nil hready, hle⟩

end RoutingJob

end SurfaceFabric
