import SurfaceFabric.Proofs.Routing.Exclusion
import SurfaceFabric.Proofs.Routing.Progress

/-!
Ticks at which nothing changes on the grid. Where teleports are off or held at the start of a gate, every
lock has begun by the tick at which it is taken. Until the next lock ends, no cell becomes free, so operands
in two cells between which no route was found have none.
-/

namespace SurfaceFabric

/-- Teleports are off, or hold their switches in the first cycle of a gate. -/
def TeleportSettings.Prompt (t : TeleportSettings) : Prop := t.enabled = false ∨ t.policy = .asap

instance : DecidablePred TeleportSettings.Prompt := fun t =>
  inferInstanceAs (Decidable (t.enabled = false ∨ t.policy = .asap))

/-- All locks of a grid have begun at a tick, and none ends from then on until a later one. -/
structure LockGrid.Quiet (g : LockGrid) (t limit : Nat) : Prop where
  begun : ∀ h ∈ g.holds, h.lock.start ≤ t
  still : ∀ h ∈ g.holds, h.lock.stop ≤ t ∨ limit ≤ h.lock.stop

structure LockGrid.Extends (g g' : LockGrid) : Prop where
  bare_eq : g'.bare = g.bare
  holds : ∀ h ∈ g.holds, h ∈ g'.holds

namespace LockGrid

variable {g g' g'' : LockGrid} {c : Cell} {t t' limit start stop stop' : Nat}

theorem Extends.refl (g : LockGrid) : Extends g g := ⟨rfl, fun _ h => h⟩

theorem Extends.trans (h : Extends g g') (h' : Extends g' g'') : Extends g g'' :=
  ⟨h'.bare_eq.trans h.bare_eq, fun x hx => h'.holds x (h.holds x hx)⟩

theorem Extends.inside_eq (h : Extends g g') (c : Cell) : g'.inside c = g.inside c := by
  rw [← inside_bare, h.bare_eq, inside_bare]

/-- What is free on the fuller grid is free on the other. -/
theorem Extends.isFree (h : Extends g g') (hfree : g'.isFree c start stop = true) :
    g.isFree c start stop = true := by
  obtain ⟨hinside, hfree⟩ := isFree_iff.1 hfree
  exact isFree_iff.2 ⟨h.inside_eq c ▸ hinside, fun x hx => hfree x (h.holds x hx)⟩

/-- While nothing begins or ends, a cell that is free at some tick was free before, for any time. -/
theorem Quiet.isFree (h : g.Quiet t limit) (ht : t ≤ t') (hlimit : t' < limit) (hstop' : t' < stop')
    (hfree : g.isFree c t' stop' = true) : g.isFree c t stop = true := by
  obtain ⟨hinside, hfree⟩ := isFree_iff.1 hfree
  refine isFree_iff.2 ⟨hinside, fun x hx hcell => ?_⟩
  have hbegun := h.begun x hx
  have hstill := h.still x hx
  have := hfree x hx hcell
  omega

end LockGrid

namespace PathSearch

variable {q q' : PathQuery} {source target : Cell}

/-- Steps depend on the cells of the grid and on which of them are passable. -/
theorem steps_mono (hgrid : q'.grid.bare = q.grid.bare)
    (hpass : ∀ c, q.passable c = true → q'.passable c = true) {c d : Cell}
    (h : q.Steps source target c d) : q'.Steps source target c d := by
  obtain ⟨vertical, hstep, hmay⟩ := h
  refine ⟨vertical, ?_, ?_⟩
  · show (d, vertical) ∈ q'.grid.bare.steps c
    rw [hgrid]
    exact hstep
  · have hvertical (c : Cell) : q'.grid.isVertical c = q.grid.isVertical c := by
      show q'.grid.bare.isVertical c = q.grid.bare.isVertical c
      rw [hgrid]
    simp only [PathQuery.mayStep, Bool.and_eq_true, hvertical] at hmay ⊢
    refine ⟨hmay.1, ?_⟩
    split
    · next htarget =>
        have hlast := hmay.2
        rwa [if_pos htarget] at hlast
    · next htarget =>
        have hlast := hmay.2
        rw [if_neg htarget] at hlast
        exact hpass d hlast

theorem IsPath.reaches {path : List Cell} (h : IsPath q source target path) :
    Relation.ReflTransGen (q.Steps source target) source target := by
  cases path with
  | nil => cases h.head
  | cons a rest =>
      cases h.head
      refine List.relationReflTransGen_of_exists_isChain_cons rest h.chain ?_
      have hlast := h.last
      rw [List.getLast?_eq_some_getLast (List.cons_ne_nil _ _)] at hlast
      exact Option.some.inj hlast

end PathSearch

namespace RoutingJob

variable {job : RoutingJob} {pace : Pace} {slacks : List Nat} {n start stop : Nat}

theorem window_asap (h : job.settings.teleport.policy = .asap) (start stop : Nat) :
    job.window start stop = (start, start + 1) := by
  rw [window, h]

/-- What a leg locks and teleports begins with the gate. -/
theorem planLeg_begins {teleporting : Bool} {inner : List Cell}
    (h : teleporting = false ∨ job.settings.teleport.policy = .asap) :
    (∀ l ∈ (job.planLeg n start stop teleporting inner).locks ++
        (job.planLeg n start stop teleporting inner).ends, l.start = start) ∧
      ∀ tp ∈ (job.planLeg n start stop teleporting inner).teleports, tp.start = start := by
  have hwhole : ∀ l ∈ (inner.map fun c => (⟨c, start, stop⟩ : CellLock)) ++ [], l.start = start := by
    simp
  rcases h with rfl | hasap
  · exact ⟨hwhole, by simp [planLeg]⟩
  · rcases planLeg_cases job n start stop teleporting inner with
      hplan | ⟨before, a, mid, b, after, -, -, -, hplan⟩
    · rw [hplan]
      exact ⟨hwhole, by simp⟩
    · rw [hplan, window_asap hasap]
      refine ⟨?_, by simp⟩
      intro l hl
      simp only [List.mem_append, List.mem_map, List.mem_cons, List.not_mem_nil, or_false] at hl
      rcases hl with ((⟨c, -, rfl⟩ | ⟨c, -, rfl⟩) | ⟨c, -, rfl⟩) | rfl | rfl <;> rfl

theorem isBridging_or_asap (h : job.settings.teleport.Prompt) (inners : List (List Cell)) :
    job.isBridging inners = false ∨ job.settings.teleport.policy = .asap := by
  refine h.imp_left fun hoff => ?_
  rw [isBridging, hoff, Bool.false_and]

theorem Admission.begins {f : Fabric} {t : Nat} (a : Admission job f n t)
    (h : job.settings.teleport.Prompt) :
    (∀ l ∈ a.route.locks, l.start = t) ∧ ∀ tp ∈ a.plan.teleports, tp.start = t := by
  have hbridging := isBridging_or_asap h (a.legs.map interior)
  refine ⟨fun l hl => ?_, fun tp htp => ?_⟩
  · obtain ⟨c, -, rfl⟩ | ⟨inner, -, hl⟩ := mem_planLocks.1 hl
    · rfl
    · exact (planLeg_begins hbridging).1 l hl
  · obtain ⟨inner, -, htp⟩ := mem_planLocks_teleports.1 htp
    exact (planLeg_begins hbridging).2 tp htp

theorem Admission.extends {f : Fabric} {t : Nat} (a : Admission job f n t) :
    f.grid.Extends a.fabric.grid :=
  ⟨LockGrid.bare_foldl_hold _ _, fun _ hx => LockGrid.mem_holds_foldl_hold.2 (.inl hx)⟩

/-- What the state of a run knows about time. Locks and teleports have begun, and gates end within the
word. -/
structure Begun (s : RoutingState) : Prop where
  holds : ∀ h ∈ s.fabric.grid.holds, h.lock.start ≤ s.clock
  teleports : ∀ tp ∈ s.fabric.teleports, tp.start ≤ s.clock
  finish_le : ∀ r ∈ s.routes, r.finish ≤ Word.top

namespace Begun

variable {s : RoutingState}

theorem enter (h : Begun s) (hprompt : job.settings.teleport.Prompt)
    (a : Admission job s.fabric n s.clock) : Begun (s.enter a) := by
  obtain ⟨hlocks, hteleports⟩ := a.begins hprompt
  refine ⟨fun x hx => ?_, ?_, fun r hr => ?_⟩
  · obtain hx | ⟨hx, -⟩ := LockGrid.mem_holds_foldl_hold.1 hx
    · exact h.holds x hx
    · obtain ⟨l, hl, rfl⟩ := List.mem_map.1 hx
      exact (hlocks l hl).le
  · exact Teleport.forall_mem_recordAll (fun _ _ _ ha _ => ha) h.teleports
      fun tp htp => (hteleports tp htp).le
  · rcases List.mem_append.1 hr with hr | hr
    · exact h.finish_le r hr
    · rw [List.mem_singleton.1 hr]
      exact a.stop_le

theorem step {s' : RoutingState} (h : Begun s) (hprompt : job.settings.teleport.Prompt)
    (hstep : Step job pace slacks s s') : Begun s' := by
  cases hstep with
  | complete =>
      obtain ⟨hteleports, -, hholds⟩ := foldl_complete job (due s) s.fabric
      refine ⟨fun x hx => h.holds x ((hholds x).1 hx).1, ?_, h.finish_le⟩
      show ∀ tp ∈ ((due s).foldl job.complete s.fabric).teleports, tp.start ≤ s.clock
      rw [hteleports]
      exact h.teleports
  | wait _ htry =>
      obtain ⟨hgrid, hteleports⟩ := tryRoute_none htry
      obtain ⟨holds, teleports, finish_le⟩ := h
      rw [← hgrid] at holds
      rw [← hteleports] at teleports
      exact ⟨holds, teleports, finish_le⟩
  | enter _ a => exact h.enter hprompt a
  | advance _ hlt =>
      exact ⟨fun x hx => (h.holds x hx).trans hlt.le, fun tp htp => (h.teleports tp htp).trans hlt.le,
        h.finish_le⟩

end Begun

theorem plan?_of_free {f : Fabric} {t : Nat} {cells : List Cell} {legs : List (List Cell)} (hlt : t < stop)
    (hfree : ∀ c ∈ cells, f.grid.isFree c t stop = true)
    (hlegs : job.legs f.grid (sharedEndpoints f (job.window t stop)) t stop cells cells = .ok (some legs))
    (hinner : ∀ c ∈ (legs.map interior).flatten, f.grid.isFree c t stop = true) :
    ∃ p, job.plan? f n t stop cells = .ok (some p) :=
  ⟨_, plan?_eq_some_iff.2 ⟨hfree, legs, hlegs, isFeasible_of_free hlt hfree hlegs hinner, rfl, rfl⟩⟩

theorem plan?_eq_none_of_held {f : Fabric} {t : Nat} {cells : List Cell}
    (h : ¬∀ c ∈ cells, f.grid.isFree c t stop = true) : job.plan? f n t stop cells = .ok none := by
  have hall : (cells.all fun c => f.grid.isFree c t stop) = false := by
    rw [← Bool.not_eq_true, List.all_eq_true]
    exact h
  rw [plan?, hall]
  rfl

/-- With its operands free, a plan goes by the legs between them. -/
theorem plan?_eq_bind (job : RoutingJob) (n : Nat) {f : Fabric} {t : Nat} {cells : List Cell}
    (h : ∀ c ∈ cells, f.grid.isFree c t stop = true) :
    ∃ k, k none = .ok none ∧ job.plan? f n t stop cells =
      job.legs f.grid (sharedEndpoints f (job.window t stop)) t stop cells cells >>= k := by
  have hall : (cells.all fun c => f.grid.isFree c t stop) = true := List.all_eq_true.2 h
  rw [plan?, hall]
  exact ⟨_, rfl, rfl⟩

variable {f f' : Fabric} {t t' limit stop' : Nat}

/-- A leg that is found while nothing begins or ends could be found before, without any relaxation. -/
theorem leg?_earlier (hprompt : job.settings.teleport.Prompt) (hgrid : f.grid.Extends f'.grid)
    (hquiet : f'.grid.Quiet t limit) (hteleports : ∀ tp ∈ f'.teleports, tp.start ≤ t) (ht : t < t')
    (hlimit : t' < limit) (hstop' : t' < stop') {blocked : List Cell} {a b : Cell} {leg : List Cell}
    (ha : f.grid.inside a = true)
    (h : job.leg? f'.grid (sharedEndpoints f' (job.window t' stop')) t' stop' blocked a b = some leg) :
    ∃ leg', PathSearch.find? ⟨f.grid, t, stop, blocked, none⟩ a b = some leg' := by
  have hfree {c : Cell} {stop' : Nat} (hstop' : t' < stop') (h : f'.grid.isFree c t' stop' = true) :
      f.grid.isFree c t stop = true := hgrid.isFree (hquiet.isFree ht.le hlimit hstop' h)
  have hroute (c : Cell) : f'.grid.isRoute c = f.grid.isRoute c := by
    show f'.grid.bare.isRoute c = f.grid.bare.isRoute c
    rw [hgrid.bare_eq]
  have hinside : f'.grid.inside a = true := by rwa [hgrid.inside_eq]
  -- a path of any query whose cells were free before is a path of the strict one
  have hearlier {q : PathQuery} (hq : q.grid = f'.grid)
      (hpass : ∀ c, q.passable c = true → f'.grid.isRoute c = true ∧ c ∉ blocked ∧
        f.grid.isFree c t stop = true) (h : PathSearch.find? q a b = some leg) :
      ∃ leg', PathSearch.find? ⟨f.grid, t, stop, blocked, none⟩ a b = some leg' := by
    apply PathSearch.findBy?_isSome ha
    have hpath := PathSearch.findBy?_isPath (hq ▸ hinside) h
    refine Relation.ReflTransGen.mono ?_ _ _ hpath.reaches
    intro c d hstep
    refine PathSearch.steps_mono ?_ (fun c hc => ?_) hstep
    · rw [hq]
      exact hgrid.bare_eq.symm
    · obtain ⟨hr, hblocked, hc⟩ := hpass c hc
      rw [hroute] at hr
      simp [PathQuery.passable, hr, hblocked, hc]
  rw [leg?] at h
  rcases Option.or_eq_some_iff.1 h with h | ⟨-, h⟩
  · refine hearlier rfl (fun c hc => ?_) h
    simp only [PathQuery.passable, Bool.and_eq_true, decide_eq_true_eq, Option.map_none,
      Option.getD_none, Bool.or_false] at hc
    exact ⟨hc.1.1, hc.1.2, hfree hstop' hc.2⟩
  · split at h
    · next henabled =>
        have hasap : job.settings.teleport.policy = .asap :=
          hprompt.resolve_left fun hoff => by simp [hoff] at henabled
        -- no teleport of a later window has been recorded yet
        have hshared (c : Cell) : c ∉ sharedEndpoints f' (job.window t' stop') := by
          intro hc
          obtain ⟨tp, htp, hwindow, -⟩ := mem_sharedEndpoints.1 hc
          rw [window_asap hasap] at hwindow
          have := hteleports tp htp
          omega
        rw [window_asap hasap] at h hshared
        refine hearlier rfl (fun c hc => ?_) h
        simp only [PathQuery.passable, PathQuery.relaxedAt, Bool.and_eq_true, decide_eq_true_eq,
          Option.map_some, Option.getD_some, Bool.or_eq_true, hshared, or_false] at hc
        refine ⟨hc.1.1, hc.1.2, ?_⟩
        rcases hc.2 with hc | ⟨-, hc⟩
        · exact hfree hstop' hc
        · exact hfree (Nat.lt_succ_self t') hc
    · cases h

/-- The cells between two operands of a leg found without relaxation are free. -/
theorem isFree_of_find? {grid : LockGrid} {blocked : List Cell} {a b : Cell} {leg : List Cell}
    (ha : grid.inside a = true) (h : PathSearch.find? ⟨grid, start, stop, blocked, none⟩ a b = some leg)
    (hlength : 2 ≤ leg.length) : ∀ c ∈ interior leg, grid.isFree c start stop = true := by
  have hpath := PathSearch.findBy?_isPath (by exact ha) h
  obtain ⟨inner, rfl⟩ := hpath.eq_cons_append hlength
  have heq : interior (a :: (inner ++ [b])) = inner := by simp [interior]
  rw [heq]
  intro c hc
  have hpass := (hpath.interior.2 c hc).1
  simp only [PathQuery.passable, Bool.and_eq_true, Option.map_none, Option.getD_none,
    Bool.or_false] at hpass
  exact hpass.2

/-- Where no route was found for operands in two cells at most, none is found while nothing begins or
ends. -/
theorem plan?_later (hprompt : job.settings.teleport.Prompt) (hgrid : f.grid.Extends f'.grid)
    (hquiet : f'.grid.Quiet t limit) (hteleports : ∀ tp ∈ f'.teleports, tp.start ≤ t) (ht : t < t')
    (hlimit : t' < limit) (hstop : t < stop) (hstop' : t' < stop') {cells : List Cell}
    (hlength : cells.length ≤ 2) (h : job.plan? f n t stop cells = .ok none) :
    job.plan? f' n t' stop' cells = .ok none := by
  by_cases hfree' : ∀ c ∈ cells, f'.grid.isFree c t' stop' = true
  · have hfree (c : Cell) (hc : c ∈ cells) : f.grid.isFree c t stop = true :=
      hgrid.isFree (hquiet.isFree ht.le hlimit hstop' (hfree' c hc))
    have hnone (legs : List (List Cell)) (hlegs : job.legs f.grid
        (sharedEndpoints f (job.window t stop)) t stop cells cells = .ok (some legs)) :
        ¬∀ c ∈ (legs.map interior).flatten, f.grid.isFree c t stop = true := by
      intro hinner
      obtain ⟨p, hp⟩ := plan?_of_free (n := n) hstop hfree hlegs hinner
      rw [h] at hp
      cases hp
    match cells, hlength with
    | [], _ => exact absurd (by simp) (hnone [] rfl)
    | [c], _ => exact absurd (by simp) (hnone [] rfl)
    | [a, b], _ =>
        have hinside : f.grid.inside a = true := (LockGrid.isFree_iff.1 (hfree a (by simp))).1
        have hlegs' : job.legs f'.grid (sharedEndpoints f' (job.window t' stop')) t' stop' [a, b] [a, b] =
            .ok none := by
          rw [legs_pair_eq]
          cases hleg' : job.leg? f'.grid (sharedEndpoints f' (job.window t' stop')) t' stop' [] a b with
          | none => rfl
          | some leg' =>
              exfalso
              obtain ⟨leg, hfind⟩ :=
                leg?_earlier hprompt hgrid hquiet hteleports ht hlimit hstop' hinside hleg'
              have hleg : job.leg? f.grid (sharedEndpoints f (job.window t stop)) t stop [] a b =
                  some leg := Option.or_eq_some_iff.2 (.inl hfind)
              have hlegs := legs_pair_eq job f.grid (sharedEndpoints f (job.window t stop)) t stop a b
              rw [hleg] at hlegs
              dsimp only at hlegs
              split at hlegs
              · -- operands on one cell are a fault at once
                obtain ⟨k, -, hplan⟩ := plan?_eq_bind job n hfree
                rw [hplan, hlegs] at h
                cases h
              · next hlong =>
                  refine hnone [leg] hlegs ?_
                  simpa using isFree_of_find? hinside hfind (Nat.not_lt.1 hlong)
        obtain ⟨k, hk, hplan⟩ := plan?_eq_bind job n hfree'
        rw [hplan, hlegs']
        exact hk
    | _ :: _ :: _ :: _, hlength =>
        simp only [List.length_cons] at hlength
        omega
  · exact plan?_eq_none_of_held hfree'

end RoutingJob

end SurfaceFabric
