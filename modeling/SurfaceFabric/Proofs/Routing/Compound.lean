import SurfaceFabric.Proofs.Routing.Exclusion

/-!
Compound teleports. Recording keeps the teleports of all routes in groups, one to each recorded teleport. A group is
held together by endpoints that its members share within a window, and no endpoint leads from one group to another.
So what a run has recorded in the end are the connected components of the teleports of its routes, whatever the order
in which these came.
-/

namespace SurfaceFabric

theorem nodup_appendNew {α : Type} [DecidableEq α] {l m : List α} (h : l.Nodup) : (appendNew l m).Nodup := by
  unfold appendNew
  induction m generalizing l with
  | nil => exact h
  | cons a m ih =>
      apply ih
      dsimp only
      split
      · exact h
      · next ha =>
          rw [← List.concat_eq_append]
          exact h.concat ha

def IsUnion {α : Type} (l : List α) (ls : List (List α)) : Prop :=
  l.Nodup ∧ ∀ a, a ∈ l ↔ ∃ m ∈ ls, a ∈ m

theorem IsUnion.appendNew {α : Type} [DecidableEq α] {l m : List α} {ls ms : List (List α)} (hl : IsUnion l ls)
    (hm : IsUnion m ms) : IsUnion (appendNew l m) (ls ++ ms) := by
  refine ⟨nodup_appendNew hl.1, fun a => ?_⟩
  simp only [mem_appendNew, hl.2, hm.2, List.mem_append, or_and_right, exists_or]

namespace Teleport

variable {a b tp t : Teleport} {ts g h : List Teleport} {groups : List (List Teleport)}

def Touches (a b : Teleport) : Prop :=
  (a.start = b.start ∧ a.stop = b.stop) ∧ ∃ c ∈ a.endpoints, c ∈ b.endpoints

theorem Touches.symm (hab : a.Touches b) : b.Touches a := by
  obtain ⟨⟨hstart, hstop⟩, c, ha, hb⟩ := hab
  exact ⟨⟨hstart.symm, hstop.symm⟩, c, hb, ha⟩

def Linked (ts : List Teleport) (a b : Teleport) : Prop := a ∈ ts ∧ b ∈ ts ∧ a.Touches b

/-- A component of the given teleports: whatever links lead to from its members. -/
def IsComponent (ts g : List Teleport) : Prop :=
  g ≠ [] ∧ ∀ a ∈ g, ∀ b, b ∈ g ↔ Relation.ReflTransGen (Linked ts) a b

/-- A teleport that does what others do together: in their window it serves their gates and has their endpoints and
cells. -/
structure Merges (tp : Teleport) (g : List Teleport) : Prop where
  window : ∀ a ∈ g, a.start = tp.start ∧ a.stop = tp.stop
  gates : IsUnion tp.gates (g.map gates)
  endpoints : IsUnion tp.endpoints (g.map endpoints)
  cells : IsUnion tp.cells (g.map cells)

def MergesComponents (merged ts : List Teleport) : Prop :=
  ∃ groups : List (List Teleport), groups.flatten.Perm ts ∧ groups.Pairwise List.Disjoint ∧
    (∀ g ∈ groups, IsComponent ts g) ∧ List.Forall₂ Merges merged groups

/-! ### Groups -/

theorem linked_mono (hsub : g ⊆ h) (hpath : Relation.ReflTransGen (Linked g) a b) :
    Relation.ReflTransGen (Linked h) a b :=
  Relation.ReflTransGen.mono (fun _ _ hlink => ⟨hsub hlink.1, hsub hlink.2.1, hlink.2.2⟩) _ _ hpath

/-- A teleport with the group it stands for, in which links lead from each member to each other. -/
structure Compound (tp : Teleport) (g : List Teleport) : Prop extends Merges tp g where
  inhabited : g ≠ []
  linked : ∀ a ∈ g, ∀ b ∈ g, Relation.ReflTransGen (Linked g) a b

theorem compound_singleton (hgates : t.gates.Nodup) (hendpoints : t.endpoints.Nodup) (hcells : t.cells.Nodup) :
    t.Compound [t] where
  window := by simp
  gates := ⟨hgates, by simp⟩
  endpoints := ⟨hendpoints, by simp⟩
  cells := ⟨hcells, by simp⟩
  inhabited := by simp
  linked := by
    intro a ha b hb
    rw [List.mem_singleton.1 ha, List.mem_singleton.1 hb]

/-- Members of two groups that touch make the teleports of the groups touch. -/
theorem Compound.touches {tp' : Teleport} (hg : tp.Compound g) (hh : tp'.Compound h) (ha : a ∈ g) (hb : b ∈ h)
    (hab : a.Touches b) : tp.Touches tp' := by
  obtain ⟨⟨hstart, hstop⟩, c, hca, hcb⟩ := hab
  obtain ⟨hastart, hastop⟩ := hg.window a ha
  obtain ⟨hbstart, hbstop⟩ := hh.window b hb
  refine ⟨⟨by omega, by omega⟩, c, ?_, ?_⟩
  · exact (hg.endpoints.2 c).2 ⟨_, List.mem_map_of_mem ha, hca⟩
  · exact (hh.endpoints.2 c).2 ⟨_, List.mem_map_of_mem hb, hcb⟩

theorem Compound.absorb (hg : tp.Compound g) (hh : t.Compound h) (hshares : tp.Touches t) :
    (tp.absorb t).Compound (g ++ h) := by
  obtain ⟨⟨hstart, hstop⟩, c, hc, hc'⟩ := hshares
  -- the common endpoint is one of a member on either side, and they link the two groups
  obtain ⟨_, hmap, hca⟩ := (hg.endpoints.2 c).1 hc
  obtain ⟨a, ha, rfl⟩ := List.mem_map.1 hmap
  obtain ⟨_, hmap, hcb⟩ := (hh.endpoints.2 c).1 hc'
  obtain ⟨b, hb, rfl⟩ := List.mem_map.1 hmap
  obtain ⟨hastart, hastop⟩ := hg.window a ha
  obtain ⟨hbstart, hbstop⟩ := hh.window b hb
  have htouch : a.Touches b := ⟨⟨by omega, by omega⟩, c, hca, hcb⟩
  have hleft : g ⊆ g ++ h := List.subset_append_left g h
  have hright : h ⊆ g ++ h := List.subset_append_right g h
  refine ⟨⟨fun x hx => ?_, ?_, ?_, ?_⟩, by simp [hg.inhabited], fun x hx y hy => ?_⟩
  · rcases List.mem_append.1 hx with hx | hx
    · exact hg.window x hx
    · obtain ⟨hxstart, hxstop⟩ := hh.window x hx
      exact ⟨hxstart.trans hstart.symm, hxstop.trans hstop.symm⟩
  · rw [List.map_append]
    exact hg.gates.appendNew hh.gates
  · rw [List.map_append]
    exact hg.endpoints.appendNew hh.endpoints
  · rw [List.map_append]
    exact hg.cells.appendNew hh.cells
  · rcases List.mem_append.1 hx with hx | hx <;> rcases List.mem_append.1 hy with hy | hy
    · exact linked_mono hleft (hg.linked x hx y hy)
    · exact ((linked_mono hleft (hg.linked x hx a ha)).tail ⟨hleft ha, hright hb, htouch⟩).trans
        (linked_mono hright (hh.linked b hb y hy))
    · exact ((linked_mono hright (hh.linked x hx b hb)).tail ⟨hright hb, hleft ha, htouch.symm⟩).trans
        (linked_mono hleft (hg.linked a ha y hy))
    · exact linked_mono hright (hh.linked x hx y hy)

/-! ### Recording -/

/-- Recording a teleport puts its group together with those it touches and leaves the others alone. -/
theorem exists_groups_record (ts : List Teleport) (t : Teleport) (hts : List.Forall₂ Compound ts groups)
    (ht : t.Compound g) : ∃ groups', List.Forall₂ Compound (record ts t) groups' ∧
      groups'.flatten.Perm (groups.flatten ++ g) := by
  induction ts, t using record_induction generalizing groups g with
  | apart ts t _ heq =>
      rw [heq]
      exact ⟨groups ++ [g], List.rel_append hts (.cons ht .nil), by simp⟩
  | merge ts t r rest hperm hshares heq ih =>
      rw [heq]
      obtain ⟨sorted, hsorted, hgroups⟩ := List.perm_comp_forall₂ hperm.symm hts
      obtain ⟨own, others, hown, hothers, rfl⟩ := List.forall₂_cons_left_iff.1 hsorted
      obtain ⟨groups', hcompound, hflat⟩ := ih hothers (hown.absorb ht (sharesEndpoint_iff.1 hshares))
      refine ⟨groups', hcompound, hflat.trans ?_⟩
      rw [← List.append_assoc]
      refine List.Perm.append_right g (List.perm_append_comm.trans ?_)
      exact hgroups.flatten

theorem pairwise_record (ts : List Teleport) (t : Teleport) (hts : ts.Pairwise fun a b => ¬a.Touches b) :
    (record ts t).Pairwise fun a b => ¬a.Touches b := by
  induction ts, t using record_induction with
  | apart ts t hapart heq =>
      rw [heq]
      refine List.pairwise_append.2 ⟨hts, List.pairwise_singleton .., fun r hr s hs => ?_⟩
      rw [List.mem_singleton.1 hs]
      exact fun htouch => hapart r hr (sharesEndpoint_iff.2 htouch)
  | merge ts t r rest hperm _ heq ih =>
      rw [heq]
      apply ih
      have hcons := (hperm.pairwise_iff fun hnot htouch => hnot htouch.symm).1 hts
      exact (List.pairwise_cons.1 hcons).2

/-- The groups after all of some teleports have been recorded. -/
theorem exists_groups_recordAll {new : List Teleport} (hnew : ∀ t ∈ new, t.Compound [t])
    (hts : List.Forall₂ Compound ts groups) (hapart : ts.Pairwise fun a b => ¬a.Touches b) :
    ∃ groups', List.Forall₂ Compound (new.foldl record ts) groups' ∧
      groups'.flatten.Perm (groups.flatten ++ new) ∧ (new.foldl record ts).Pairwise fun a b => ¬a.Touches b := by
  induction new generalizing ts groups with
  | nil => exact ⟨groups, hts, by simp, hapart⟩
  | cons t new ih =>
      obtain ⟨ht, hnew⟩ := List.forall_mem_cons.1 hnew
      obtain ⟨next, hnext, hflat⟩ := exists_groups_record ts t hts ht
      obtain ⟨groups', hcompound, hflat', hapart'⟩ := ih hnew hnext (pairwise_record ts t hapart)
      refine ⟨groups', hcompound, hflat'.trans ?_, hapart'⟩
      rw [← List.singleton_append, ← List.append_assoc]
      exact hflat.append_right new

theorem exists_compound (hts : List.Forall₂ Compound ts groups) (hg : g ∈ groups) : ∃ tp ∈ ts, tp.Compound g := by
  induction hts with
  | nil => cases hg
  | cons hfirst _ ih =>
      rcases List.mem_cons.1 hg with rfl | hg
      · exact ⟨_, List.mem_cons_self, hfirst⟩
      · obtain ⟨tp, htp, hcompound⟩ := ih hg
        exact ⟨tp, List.mem_cons_of_mem _ htp, hcompound⟩

/-- Nothing leads from one group to another if their teleports do not touch. -/
theorem pairwise_groups (hts : List.Forall₂ Compound ts groups) (hapart : ts.Pairwise fun a b => ¬a.Touches b) :
    groups.Pairwise fun g h => ∀ a ∈ g, ∀ b ∈ h, ¬a.Touches b := by
  induction hts with
  | nil => exact .nil
  | cons hfirst hrest ih =>
      obtain ⟨hnot, hapart⟩ := List.pairwise_cons.1 hapart
      refine List.pairwise_cons.2 ⟨fun h hh a ha b hb htouch => ?_, ih hapart⟩
      obtain ⟨tp, htp, hcompound⟩ := exists_compound hrest hh
      exact hnot tp htp (hfirst.touches hcompound ha hb htouch)

/-- A group that nothing leads out of is a component. -/
theorem isComponent_of_groups (hts : List.Forall₂ Compound ts groups)
    (hgroups : groups.Pairwise fun g h => ∀ a ∈ g, ∀ b ∈ h, ¬a.Touches b) (hg : g ∈ groups) :
    IsComponent groups.flatten g := by
  obtain ⟨tp, -, hcompound⟩ := exists_compound hts hg
  refine ⟨hcompound.inhabited, fun a ha b => ⟨fun hb => ?_, fun hpath => ?_⟩⟩
  · exact linked_mono (fun _ => List.mem_flatten_of_mem hg) (hcompound.linked a ha b hb)
  · induction hpath with
    | refl => exact ha
    | @tail c d _ hlink hc =>
        obtain ⟨-, hd, htouch⟩ := hlink
        obtain ⟨h, hh, hdh⟩ := List.mem_flatten.1 hd
        have : Std.Symm fun g h : List Teleport => ∀ a ∈ g, ∀ b ∈ h, ¬a.Touches b :=
          ⟨fun _ _ hnot b hb a ha htouch => hnot a ha b hb htouch.symm⟩
        by_contra hne
        refine hgroups.forall hg hh ?_ c hc d hdh htouch
        rintro rfl
        exact hne hdh

/-- Recording teleports from the start merges their components. -/
theorem mergesComponents_recordAll (hts : ∀ t ∈ ts, t.Compound [t] ∧ t.endpoints ≠ []) :
    MergesComponents (ts.foldl record []) ts ∧ (ts.foldl record []).Pairwise fun a b => ¬a.Touches b := by
  obtain ⟨groups, hcompound, hflat, hapart⟩ :=
    exists_groups_recordAll (fun t ht => (hts t ht).1) List.Forall₂.nil List.Pairwise.nil
  rw [List.flatten_nil, List.nil_append] at hflat
  have hgroups := pairwise_groups hcompound hapart
  refine ⟨⟨groups, hflat, ?_, fun g hg => ?_, hcompound.imp fun _ _ h => h.toMerges⟩, hapart⟩
  · -- a teleport of two groups would touch itself
    refine hgroups.imp_of_mem fun hg _ hnot t ht ht' => hnot t ht t ht' ⟨⟨rfl, rfl⟩, ?_⟩
    obtain ⟨c, hc⟩ := List.exists_mem_of_ne_nil _ (hts t (hflat.mem_iff.1 (List.mem_flatten_of_mem hg ht))).2
    exact ⟨c, hc, hc⟩
  · obtain ⟨hne, hcomponent⟩ := isComponent_of_groups hcompound hgroups hg
    have hlinked : Linked groups.flatten = Linked ts := by
      funext a b
      simp only [Linked, hflat.mem_iff]
    exact ⟨hne, hlinked ▸ hcomponent⟩

end Teleport

namespace RoutingJob

variable {job : RoutingJob} {pace : Pace} {slacks : List Nat} {n start stop : Nat}

/-- The teleport of a leg is a group of its own. -/
theorem planLeg_compound {teleporting : Bool} {inner : List Cell} {tp : Teleport} (hnodup : inner.Nodup)
    (htp : tp ∈ (job.planLeg n start stop teleporting inner).teleports) : tp.Compound [tp] ∧ tp.endpoints ≠ [] := by
  rcases planLeg_cases job n start stop teleporting inner with
    hplan | ⟨before, a, mid, b, after, rfl, ha, -, hplan⟩
  · rw [hplan] at htp
    cases htp
  · rw [hplan] at htp
    obtain rfl := List.mem_singleton.1 htp
    have hbridge : (a :: (mid ++ [b])).Nodup := (List.nodup_append.1 (List.nodup_append.1 hnodup).1).2.1
    have hends := hbridge.filter fun c => c ∈ job.switches
    exact ⟨Teleport.compound_singleton (List.nodup_singleton n) hends hbridge, by simp [ha]⟩

theorem Admission.plan_compound {f : Fabric} {t : Nat} (a : Admission job f n t) {tp : Teleport}
    (htp : tp ∈ a.plan.teleports) : tp.Compound [tp] ∧ tp.endpoints ≠ [] := by
  have hinside (c : Cell) (hc : c ∈ a.cells) : f.grid.inside c = true :=
    (LockGrid.isFree_iff.1 (a.cells_free c hc)).1
  obtain ⟨inner, hinner, htp⟩ := mem_planLocks_teleports.1 htp
  exact planLeg_compound ((List.nodup_flatten.1 (legs_interiors a.legs_eq hinside).1).1 inner hinner) htp

/-- The teleports of all routes so far, in order of admission. -/
def routed (s : RoutingState) : List Teleport := s.routes.flatMap Route.teleports

structure Recorded (s : RoutingState) : Prop where
  recorded : s.fabric.teleports = (routed s).foldl Teleport.record []
  compound : ∀ tp ∈ routed s, tp.Compound [tp] ∧ tp.endpoints ≠ []

theorem Recorded.step {s s' : RoutingState} (h : Recorded s) (hstep : Step job pace slacks s s') : Recorded s' := by
  cases hstep with
  | complete => exact ⟨(foldl_complete job _ s.fabric).1.trans h.recorded, h.compound⟩
  | wait _ htry => exact ⟨(tryRoute_none htry).2.trans h.recorded, h.compound⟩
  | enter _ a =>
      have hrouted : routed (s.enter a) =
            routed s ++ a.plan.teleports := by
        simp [routed, Admission.route]
      constructor
      · rw [hrouted, List.foldl_append, ← h.recorded]
        rfl
      · intro tp htp
        rw [hrouted] at htp
        rcases List.mem_append.1 htp with htp | htp
        · exact h.compound tp htp
        · exact a.plan_compound htp
  | advance => exact ⟨h.recorded, h.compound⟩

theorem Recorded.reaches {s s' : RoutingState} (h : Recorded s) (hreach : Reaches job pace slacks s s') :
    Recorded s' := by
  induction hreach with
  | refl => exact h
  | tail _ hstep ih => exact ih.step hstep

end RoutingJob

/-- The teleports that a run reports are those of its routes, merged by components. -/
theorem run_merges_components {c : Circuit} {l : Layout} {m : Mapping} {schedule : Schedule}
    {settings : RoutingSettings} {job : RoutingJob} {f f' : Fabric} {r : Routing}
    (hstart : RoutingJob.start c l m schedule settings = .ok (job, f)) (hrun : job.run f = .ok (f', .ok r)) :
    Teleport.MergesComponents r.teleports (r.routes.flatMap Route.teleports) ∧
      r.teleports.Pairwise fun a b => ¬a.Touches b := by
  obtain ⟨grid, -, rfl, rfl⟩ := RoutingJob.start_eq_ok_iff.1 hstart
  obtain ⟨slacks, s, hreach, -, -, rfl⟩ := RoutingJob.reaches_of_run hrun
  have hrecorded : RoutingJob.Recorded ⟨0, 0, ⟨grid, m, []⟩, [], [], []⟩ :=
    ⟨rfl, by simp [RoutingJob.routed]⟩
  have hlast := hrecorded.reaches hreach
  show Teleport.MergesComponents s.fabric.teleports _ ∧ s.fabric.teleports.Pairwise _
  rw [hlast.recorded]
  exact Teleport.mergesComponents_recordAll hlast.compound

/-- The two arms of the crossing share a switch, so they are one component. -/
theorem crossing_merged : ∃ job f f',
    RoutingJob.start Crossing.circuit Crossing.layout Crossing.mapping Crossing.schedule
        Crossing.settings = .ok (job, f) ∧
      job.run f = .ok (f', .ok Crossing.routing) ∧
      Teleport.MergesComponents [Crossing.leftArm.absorb Crossing.rightArm]
        [Crossing.leftArm, Crossing.rightArm] := by
  obtain ⟨job, f, f', hstart, hrun⟩ := Crossing.exists_run_eq
  exact ⟨job, f, f', hstart, hrun, (run_merges_components hstart hrun).1⟩

end SurfaceFabric
