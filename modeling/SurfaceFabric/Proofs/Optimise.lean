import SurfaceFabric.Optimise
import SurfaceFabric.Proofs.Placement.Safety
import SurfaceFabric.Proofs.Schedule.Budget

/-!
Climbing from plan to plan. A climb only ever moves to a candidate of the round it is in, and only if that is
faster than the best so far, so what such a move keeps holds of the plan it settles on. Every move makes the
schedule shorter, so no more lanes are added than the first schedule has cycles. Candidates that are refused do not
count; a climb is refused only where the plan it starts from is. It ends before its rounds are used up only where no
plan one step away is faster.
-/

namespace SurfaceFabric

/-! ### Schedules within the cycles of all gates -/

namespace Schedule

variable {c : Circuit} {pool : Pool} {budget : Nat} {B : Prop}

theorem failsOnly_tryCaps (hbuilt : c.Built) {slacks : List Nat} {n : Nat} (hB : B → c.totalCycles ≤ Word.top) :
    FailsOnly (Fault.Allowed B) (tryCaps c pool slacks n) := by
  have hcap (k : Nat) : FailsOnly (Fault.Allowed B) (simulateCap c pool slacks k) := by
    intro f hf hb
    have hover := (overflow_of_simulateCap hbuilt hf).2
    exact absurd (hB hb) (Nat.not_le.2 hover)
  refine (hcap 1).bind fun first _ => .foldlM (fun _ => True) trivial ?_ fun _ _ _ _ _ _ => trivial
  exact fun best k _ _ => (hcap (k + 2)).bind fun _ _ => .pure _

/-- A simulation is refused while gates wait. -/
theorem waiting_of_simulateCap (hbuilt : c.Built) {slacks : List Nat} {k : Nat} {d : Deadlock}
    (h : simulateCap c pool slacks k = .ok (.error d)) : 0 < d.waiting ∧ d.waiting ≤ c.size := by
  rw [simulateCap, Outcome.settle_eq_ok_error_iff, Job.simulate_eq_error_iff] at h
  obtain ⟨last, hreach, hidle, hopen, hwaiting, -⟩ := Job.reaches_refusal_of_simulateFrom h
  have htracked := ((Job.timely_start ⟨c, slacks, k⟩ pool).reaches hbuilt hreach).tracked
  rw [hwaiting]
  refine ⟨List.length_pos_of_ne_nil (htracked.exists_waiting hbuilt hidle hopen), ?_⟩
  have hsub : Job.waiting ⟨c, slacks, k⟩ last ⊆ List.range c.size := fun n hn =>
    List.mem_range.2 (Job.mem_waiting.1 hn).1
  simpa using ((Job.nodup_waiting _ last).subperm hsub).length_le

theorem waiting_of_tryCaps (hbuilt : c.Built) {slacks : List Nat} {n : Nat} {d : Deadlock}
    (h : tryCaps c pool slacks n = .ok (.error d)) : 0 < d.waiting ∧ d.waiting ≤ c.size := by
  cases n with
  | zero =>
      obtain ⟨first, hfirst, h⟩ := bind_eq_ok_iff.1 h
      cases h
      exact waiting_of_simulateCap hbuilt hfirst
  | succ n =>
      rw [tryCaps_succ] at h
      obtain ⟨best, -, h⟩ := bind_eq_ok_iff.1 h
      obtain ⟨next, hnext, h⟩ := bind_eq_ok_iff.1 h
      rw [better_eq_error (pure_eq_ok_iff.1 h)] at hnext
      exact waiting_of_simulateCap hbuilt hnext

/-- Scheduling is refused while gates wait, and faults only if a word has no room for all cycles. -/
theorem failsOnly_ofCircuit (hbuilt : c.Built) (hB : B → c.totalCycles ≤ Word.top) :
    FailsOnly (Stop.Allowed B fun d => 0 < d.waiting ∧ d.waiting ≤ c.size) (ofCircuit c pool budget) := by
  obtain ⟨slacks, hslacks⟩ := hbuilt.exists_slacks
  refine (FailsOnly.lift (.of_eq_ok hslacks)).bind fun slacks _ => ?_
  refine (FailsOnly.lift (failsOnly_tryCaps hbuilt hB)).bind fun result hresult => ?_
  cases result with
  | ok s => exact .pure _
  | error d => exact .refuse (waiting_of_tryCaps hbuilt (Outcome.liftM_eq_ok_iff.1 hresult))

end Schedule

/-! ### Plans one step away -/

namespace Plan

variable {plan next last : Plan} {m n : Nat}

theorem mem_of_distinct {seen : List String} {template : Template} {templates : List Template}
    (h : template ∈ distinct seen templates) : template ∈ templates := by
  induction templates generalizing seen with
  | nil => exact h
  | cons first rest ih =>
      unfold distinct at h
      split at h
      · exact List.mem_cons_of_mem _ (ih h)
      · rcases List.mem_cons.1 h with rfl | h
        · exact List.mem_cons_self
        · exact List.mem_cons_of_mem _ (ih h)

/-- One step away: one more lane, or one more factory of a listed template. -/
def IsNext (plan next : Plan) : Prop :=
  plan.withLane = .ok next ∨ ∃ template ∈ plan.templates, next = plan.withFactory template

/-- A plan after `n` additions: the factories it had come first, those that were added are of its templates, and no lane
is gone. -/
def Grows (plan next : Plan) (n : Nat) : Prop :=
  ∃ added, next.factories = plan.factories ++ added ∧ (∀ template ∈ added, template ∈ plan.factories) ∧
    plan.lanes ≤ next.lanes ∧ added.length + (next.lanes - plan.lanes) = n

theorem Grows.refl (plan : Plan) : plan.Grows plan 0 := ⟨[], by simp⟩

theorem Grows.trans (h : plan.Grows next m) (h' : next.Grows last n) : plan.Grows last (m + n) := by
  obtain ⟨added, hadded, hknown, hlanes, hm⟩ := h
  obtain ⟨more, hmore, hknown', hlanes', hn⟩ := h'
  refine ⟨added ++ more, by rw [hmore, hadded, List.append_assoc], fun template ht => ?_, hlanes.trans hlanes', ?_⟩
  · rcases List.mem_append.1 ht with ht | ht
    · exact hknown template ht
    · have hmem := hknown' template ht
      rw [hadded] at hmem
      exact (List.mem_append.1 hmem).elim id (hknown template)
  · rw [List.length_append]
    omega

theorem IsNext.grows (h : plan.IsNext next) : plan.Grows next 1 := by
  rcases h with h | ⟨template, htemplate, rfl⟩
  · obtain ⟨lanes, hlanes, h⟩ := bind_eq_ok_iff.1 h
    obtain ⟨-, rfl⟩ := Long.add_eq_ok_iff.1 hlanes
    cases h
    exact ⟨[], by simp⟩
  · refine ⟨[template], rfl, fun other hother => ?_, by simp [withFactory]⟩
    rw [List.mem_singleton.1 hother]
    exact mem_of_distinct htemplate

end Plan

namespace Proposal

variable {c : Circuit} {height width rounds : Nat} {best p : Proposal} {B : Prop}

/-! ### Rounds -/

/-- A move to a candidate that is faster. -/
def Moves (c : Circuit) (height width : Nat) (best p : Proposal) : Prop :=
  ∃ plans, candidates best.plan = .ok plans ∧ ∃ plan ∈ plans, ofPlan c height width plan = .ok p ∧
    p.cycles < best.cycles

theorem improve_eq_ok {plan : Plan} (h : improve c height width best plan = .ok p) :
    p = best ∨ ofPlan c height width plan = .ok p ∧ p.cycles < best.cycles := by
  obtain ⟨tried, htried, h⟩ := bind_eq_ok_iff.1 h
  cases tried with
  | none => exact .inl (pure_eq_ok_iff.1 h).symm
  | some q =>
      rw [pure_eq_ok_iff] at h
      split at h
      · next hlt =>
          subst h
          exact .inr ⟨Outcome.toOption_eq_ok_some_iff.1 htried, hlt⟩
      · exact .inl h.symm

theorem Moves.improve {plan : Plan} {q : Proposal} {plans : List Plan} (hplans : candidates best.plan = .ok plans)
    (hplan : plan ∈ plans) (hp : p = best ∨ Moves c height width best p)
    (h : improve c height width p plan = .ok q) : q = best ∨ Moves c height width best q := by
  obtain rfl | ⟨hq, hlt⟩ := improve_eq_ok h
  · exact hp
  · refine .inr ⟨plans, hplans, plan, hplan, hq, ?_⟩
    obtain rfl | ⟨-, -, -, -, -, hfaster⟩ := hp
    · exact hlt
    · exact hlt.trans hfaster

/-- A round stays where it is or makes one move. -/
theorem moves_of_round {plans : List Plan} (hplans : candidates best.plan = .ok plans)
    (h : plans.foldlM (improve c height width) best = .ok p) : p = best ∨ Moves c height width best p := by
  have hround {rest : List Plan} {q : Proposal} (hrest : ∀ plan ∈ rest, plan ∈ plans)
      (hq : q = best ∨ Moves c height width best q) (h : rest.foldlM (improve c height width) q = .ok p) :
      p = best ∨ Moves c height width best p := by
    induction rest generalizing q with
    | nil =>
        cases h
        exact hq
    | cons plan rest ih =>
        rw [List.foldlM_cons] at h
        obtain ⟨next, hnext, h⟩ := bind_eq_ok_iff.1 h
        exact ih (fun plan hplan => hrest plan (List.mem_cons_of_mem _ hplan))
          (Moves.improve hplans (hrest plan List.mem_cons_self) hq hnext) h
  exact hround (fun _ => id) (.inl rfl) h

/-- A climb gets from move to move. -/
theorem reaches_of_climb (h : climb c height width rounds best = .ok p) :
    Relation.ReflTransGen (Moves c height width) best p := by
  induction rounds generalizing best with
  | zero =>
      cases h
      exact .refl
  | succ n ih =>
      obtain ⟨plans, hplans, h⟩ := bind_eq_ok_iff.1 h
      obtain ⟨next, hnext, h⟩ := bind_eq_ok_iff.1 h
      split at h
      · next hlt =>
          obtain rfl | hmoves := moves_of_round hplans hnext
          · exact absurd hlt (Nat.lt_irrefl _)
          · exact (ih h).head hmoves
      · cases h
        exact .refl

/-- What a move keeps holds at the end of a climb. -/
theorem of_climb {P : Proposal → Prop} (hmove : ∀ best p, P best → Moves c height width best p → P p)
    (hbest : P best) (h : climb c height width rounds best = .ok p) : P p := by
  have hreach := reaches_of_climb h
  clear h
  induction hreach with
  | refl => exact hbest
  | tail _ hmoves ih => exact hmove _ _ ih hmoves

/-! ### Plans on known templates -/

theorem ofPlan_eq_ok {plan : Plan} (h : ofPlan c height width plan = .ok p) :
    p.plan = plan ∧ Layout.place c height width plan = .ok p.layout ∧ evaluate c p.layout = .ok p.cycles := by
  obtain ⟨l, hl, h⟩ := bind_eq_ok_iff.1 h
  obtain ⟨cycles, hcycles, h⟩ := bind_eq_ok_iff.1 h
  cases h
  exact ⟨rfl, Outcome.mapRefusal_eq_ok_iff.1 hl, hcycles⟩

theorem mem_candidates {plan next : Plan} {plans : List Plan} (h : candidates plan = .ok plans) :
    next ∈ plans ↔ plan.IsNext next := by
  obtain ⟨lane, hlane, h⟩ := bind_eq_ok_iff.1 h
  cases h
  simp [Plan.IsNext, hlane, @eq_comm _ next]

/-- A candidate has one lane more, or one more factory of a template that the plan has. -/
theorem of_mem_candidates {plan q : Plan} {plans : List Plan} (h : candidates plan = .ok plans) (hq : q ∈ plans) :
    q.lanes ≤ plan.lanes + 1 ∧ ∀ template ∈ q.factories, template ∈ plan.factories := by
  obtain ⟨added, hadded, hknown, -, hone⟩ := ((mem_candidates h).1 hq).grows
  refine ⟨by omega, fun template ht => ?_⟩
  rw [hadded] at ht
  exact (List.mem_append.1 ht).elim id (hknown template)

/-- A plan on known templates with its layout. Its lanes and cycles are no more than all gates take. -/
structure Grounded (c : Circuit) (height width : Nat) (known : List Template) (p : Proposal) : Prop where
  known : ∀ template ∈ p.plan.factories, template ∈ known
  placed : Layout.place c height width p.plan = .ok p.layout
  bounded : p.plan.lanes + p.cycles ≤ c.totalCycles

variable {known : List Template}

theorem Grounded.moves (h : best.Grounded c height width known) (hmoves : Moves c height width best p) :
    p.Grounded c height width known := by
  obtain ⟨plans, hplans, plan, hplan, hp, hlt⟩ := hmoves
  obtain ⟨rfl, hplaced, -⟩ := ofPlan_eq_ok hp
  obtain ⟨hlanes, hfactories⟩ := of_mem_candidates hplans hplan
  have hbounded := h.bounded
  exact ⟨fun template hmem => h.known template (hfactories template hmem), hplaced, by omega⟩

theorem failsOnly_evaluate {l : Layout} {R : CompileError → Prop} (hbuilt : c.Built)
    (hR : ∀ d, 0 < d.waiting ∧ d.waiting ≤ c.size → R (.deadlock d)) (hB : B → c.totalCycles ≤ Word.top) :
    FailsOnly (Stop.Allowed B R) (evaluate c l) :=
  (FailsOnly.mapRefusal ((Schedule.failsOnly_ofCircuit hbuilt hB).weaken hR)).bind fun _ _ => .pure _

/-- Realising a plan is refused for want of room or by a deadlock. -/
theorem failsOnly_ofPlan {plan : Plan} {R : CompileError → Prop} (hbuilt : c.Built)
    (hplan : ∀ template ∈ plan.factories, template.Inhabited)
    (hR : ∀ e, PlacementError.Expected c height width plan e → R (.placement e))
    (hdeadlock : ∀ d, 0 < d.waiting ∧ d.waiting ≤ c.size → R (.deadlock d))
    (hB : B → height * width ≤ Word.top ∧ (∀ template ∈ plan.factories, template.InWord) ∧
      c.totalCycles ≤ Word.top) : FailsOnly (Stop.Allowed B R) (ofPlan c height width plan) := by
  refine (FailsOnly.mapRefusal ((Layout.failsOnly_place hplan fun hb => ⟨(hB hb).1, (hB hb).2.1⟩).weaken hR)).bind
    fun l _ => ?_
  exact (failsOnly_evaluate hbuilt hdeadlock fun hb => (hB hb).2.2).bind fun _ _ => .pure _

theorem Grounded.failsOnly_climb (h : best.Grounded c height width known) (hbuilt : c.Built)
    (hknown : ∀ template ∈ known, template.Inhabited)
    (hB : B → height * width ≤ Word.top ∧ (∀ template ∈ known, template.InWord) ∧ c.totalCycles ≤ Word.top) :
    FailsOnly (Fault.Allowed B) (climb c height width rounds best) := by
  induction rounds generalizing best with
  | zero => exact .pure _
  | succ n ih =>
      have hcandidates : FailsOnly (Fault.Allowed B) (candidates best.plan) := by
        refine ((Long.failsOnly_add fun hb => ?_).bind fun _ _ => .pure _).bind fun _ _ => .pure _
        have hbounded := h.bounded
        have htop : Word.top + 1 ≤ Long.top := by decide
        have := (hB hb).2.2
        omega
      refine hcandidates.bind fun plans hplans => ?_
      refine (FailsOnly.foldlM (fun _ => True) trivial ?_ fun _ _ _ _ _ _ => trivial).bind fun next hnext => ?_
      · intro q plan hplan _
        have hfactories := (of_mem_candidates hplans hplan).2
        have hmem (template : Template) (ht : template ∈ plan.factories) := h.known _ (hfactories template ht)
        have hrealised : FailsOnly (Stop.Allowed B fun _ => True) (ofPlan c height width plan) :=
          failsOnly_ofPlan hbuilt (fun t ht => hknown t (hmem t ht)) (fun _ _ => trivial) (fun _ _ => trivial)
            fun hb => ⟨(hB hb).1, fun t ht => (hB hb).2.1 t (hmem t ht), (hB hb).2.2⟩
        refine hrealised.toOption.bind fun tried _ => ?_
        cases tried with
        | none => exact .pure _
        | some q => exact .pure _
      · refine .ite (fun hlt => ?_) fun _ => .pure _
        obtain rfl | hmoves := moves_of_round hplans hnext
        · exact absurd hlt (Nat.lt_irrefl _)
        · exact ih (h.moves hmoves)

/-- The plan that a climb starts from is grounded if it can be realised and has no lanes. -/
theorem grounded_of_ofPlan {plan : Plan} (hbuilt : c.Built) (hknown : ∀ template ∈ plan.factories, template ∈ known)
    (hlanes : plan.lanes = 0) (h : ofPlan c height width plan = .ok p) : p.Grounded c height width known := by
  obtain ⟨rfl, hplaced, hcycles⟩ := ofPlan_eq_ok h
  obtain ⟨s, hs, hcycles⟩ := bind_eq_ok_iff.1 hcycles
  have hle := Schedule.cycles_le_totalCycles hbuilt (Outcome.mapRefusal_eq_ok_iff.1 hs)
  rw [pure_eq_ok_iff.1 hcycles] at hle
  exact ⟨hknown, hplaced, by omega⟩

/-! ### Peaks -/

def Realised (c : Circuit) (height width : Nat) (p : Proposal) : Prop :=
  Layout.place c height width p.plan = .ok p.layout ∧ evaluate c p.layout = .ok p.cycles

def IsPeak (c : Circuit) (height width : Nat) (p : Proposal) : Prop :=
  ∀ q : Proposal, p.plan.IsNext q.plan → q.Realised c height width → p.cycles ≤ q.cycles

theorem ofPlan_eq_ok_iff {plan : Plan} : ofPlan c height width plan = .ok p ↔
    p.plan = plan ∧ p.Realised c height width := by
  refine ⟨fun h => ?_, ?_⟩
  · obtain ⟨rfl, hrealised⟩ := ofPlan_eq_ok h
    exact ⟨rfl, hrealised⟩
  · rintro ⟨rfl, hplace, hevaluate⟩
    exact bind_eq_ok_iff.2 ⟨_, Outcome.mapRefusal_eq_ok_iff.2 hplace, bind_eq_ok_iff.2 ⟨_, hevaluate, rfl⟩⟩

/-- A candidate that is tried leaves nothing slower than it or than what was best before. -/
theorem improve_le {plan : Plan} (h : improve c height width best plan = .ok p) :
    p.cycles ≤ best.cycles ∧ ∀ q, ofPlan c height width plan = .ok q → p.cycles ≤ q.cycles := by
  obtain ⟨tried, htried, h⟩ := bind_eq_ok_iff.1 h
  have hresult (q : Proposal) (hq : ofPlan c height width plan = .ok q) : tried = some q :=
    Except.ok.inj (htried.symm.trans (Outcome.toOption_eq_ok_some_iff.2 hq))
  cases tried with
  | none =>
      cases h
      exact ⟨le_rfl, fun q hq => by cases hresult q hq⟩
  | some q =>
      rw [pure_eq_ok_iff] at h
      refine ⟨?_, fun q' hq' => ?_⟩
      · split at h <;> subst h <;> omega
      · cases hresult q' hq'
        split at h <;> subst h <;> omega

theorem round_le {plans : List Plan} (h : plans.foldlM (improve c height width) best = .ok p) :
    p.cycles ≤ best.cycles ∧ ∀ plan ∈ plans, ∀ q, ofPlan c height width plan = .ok q → p.cycles ≤ q.cycles := by
  induction plans generalizing best with
  | nil =>
      cases h
      exact ⟨le_rfl, by simp⟩
  | cons plan rest ih =>
      rw [List.foldlM_cons] at h
      obtain ⟨next, hnext, h⟩ := bind_eq_ok_iff.1 h
      obtain ⟨hle, hrest⟩ := ih h
      obtain ⟨hbest, hplan⟩ := improve_le hnext
      exact ⟨hle.trans hbest, List.forall_mem_cons.2 ⟨fun q hq => hle.trans (hplan q hq), hrest⟩⟩

/-- A climb adds at most one thing a round, and ends early only on a peak. -/
theorem climb_grows (h : climb c height width rounds best = .ok p) :
    ∃ n ≤ rounds, best.plan.Grows p.plan n ∧ (n < rounds → p.IsPeak c height width) := by
  induction rounds generalizing best with
  | zero =>
      cases h
      exact ⟨0, le_rfl, .refl _, fun hlt => absurd hlt (Nat.lt_irrefl 0)⟩
  | succ rounds ih =>
      obtain ⟨plans, hplans, h⟩ := bind_eq_ok_iff.1 h
      obtain ⟨next, hnext, h⟩ := bind_eq_ok_iff.1 h
      split at h
      · next hlt =>
          obtain rfl | ⟨plans', hplans', plan, hplan, hmade, -⟩ := moves_of_round hplans hnext
          · exact absurd hlt (Nat.lt_irrefl _)
          · obtain ⟨rfl, -⟩ := ofPlan_eq_ok hmade
            obtain ⟨n, hn, hgrows, hpeak⟩ := ih h
            refine ⟨1 + n, by omega, ((mem_candidates hplans').1 hplan).grows.trans hgrows, fun hlt => hpeak (by omega)⟩
      · next hnot =>
          cases h
          refine ⟨0, Nat.zero_le _, .refl _, fun _ q hq hrealised => ?_⟩
          have hle := (round_le hnext).2 q.plan ((mem_candidates hplans).2 hq) q (ofPlan_eq_ok_iff.2 ⟨rfl, hrealised⟩)
          omega

end Proposal

/-- What climbing settles on is placed and scored as it says and no slower than the start. It grows the plan by no more
than one thing a round, and unless every round was used no plan one step further is faster. -/
theorem optimise_settles_on_peak {c : Circuit} {height width rounds : Nat} {plan : Plan} {p : Proposal}
    (h : Proposal.optimise c height width plan rounds = .ok p) :
    p.Realised c height width ∧
    (∃ first : Proposal, first.plan = plan ∧ first.Realised c height width ∧ p.cycles ≤ first.cycles) ∧
    ∃ n ≤ rounds, plan.Grows p.plan n ∧ (n < rounds → p.IsPeak c height width) := by
  obtain ⟨first, hfirst, hclimb⟩ := bind_eq_ok_iff.1 h
  rw [Outcome.liftM_eq_ok_iff] at hclimb
  obtain ⟨rfl, hrealised⟩ := Proposal.ofPlan_eq_ok_iff.1 hfirst
  have hkept := Proposal.of_climb (P := fun q => q.Realised c height width ∧ q.cycles ≤ first.cycles)
    (fun best q hbest ⟨_, _, _, _, hq, hlt⟩ => ⟨(Proposal.ofPlan_eq_ok_iff.1 hq).2, hlt.le.trans hbest.2⟩)
    ⟨hrealised, le_rfl⟩ hclimb
  exact ⟨hkept.1, ⟨first, rfl, hrealised, hkept.2⟩, Proposal.climb_grows hclimb⟩

namespace Pairs

/-- Two gates that can run at once if there are two channels. -/
def circuit : Circuit :=
  (Circuit.empty.append (.joint "cx" [.register "a", .register "b"] 1)).append
    (.joint "cx" [.register "c", .register "d"] 1)

end Pairs

/-- On two rows of six cells one lane is worth adding, and a second one is not. -/
theorem pairs_settle : ∃ p, Proposal.optimise Pairs.circuit 2 6 {} 2 = .ok p ∧ p.plan = ⟨[], 1⟩ ∧ p.cycles = 1 ∧
    p.IsPeak Pairs.circuit 2 6 := by
  obtain ⟨p, h, hplan, hcycles⟩ := exists_ok_of_any (x := Proposal.optimise Pairs.circuit 2 6 {} 2)
    (p := fun p => p.plan = ⟨[], 1⟩ ∧ p.cycles = 1) (by decide +kernel)
  obtain ⟨-, -, n, -, ⟨added, hadded, -, -, hn⟩, hpeak⟩ := optimise_settles_on_peak h
  rw [hplan] at hadded hn
  obtain rfl : added = [] := hadded.symm
  exact ⟨p, h, hplan, hcycles, hpeak (hn ▸ by decide)⟩

end SurfaceFabric
