import SurfaceFabric.Placement
import SurfaceFabric.Proofs.Placement.Served
import SurfaceFabric.Proofs.Placement.Stack

/-!
What placement never takes away. It edits segments that are not allocated, and of those that are it
releases strips of registers only, when a lane is cut through them. So routing, I/O and factories stand
from the moment they are allocated.
-/

namespace SurfaceFabric

namespace Tiling

variable {t t' : Tiling} {e : Edit} {ids : List Nat} {id : Nat} {r : Rect} {role : Role}

inductive BuildStep (t : Tiling) : Tiling → Prop
  | commit {e : Edit} {ids : List Nat} {t' : Tiling} (hcommit : t.commit e = .ok (ids, t'))
      (hremoved : ∀ s ∈ t.segments, s.id ∈ e.removed → s.allocated = false) : BuildStep t t'
  | release {s : Segment} {t' : Tiling} (hs : s ∈ t.segments) (hrole : s.role = .register)
      (hrelease : t.release s.id = .ok t') : BuildStep t t'

abbrev Builds : Tiling → Tiling → Prop := Relation.ReflTransGen BuildStep

theorem BuildStep.change (h : BuildStep t t') : Change t t' := by
  cases h with
  | commit hcommit _ => exact .commit hcommit
  | release _ _ hrelease => exact .setRole hrelease

theorem Builds.changes (h : Builds t t') : Changes t t' :=
  Relation.ReflTransGen.mono (fun _ _ => BuildStep.change) _ _ h

theorem WellTiled.builds (h : t.WellTiled) (hbuilds : Builds t t') : t'.WellTiled :=
  h.changes hbuilds.changes

def Stands (t : Tiling) (id : Nat) (r : Rect) (role : Role) : Prop :=
  ∃ s ∈ t.segments, s.id = id ∧ s.rect = r ∧ s.role = role ∧ s.allocated = true

theorem Stands.roleAt? (h : t.Stands id r role) (hwell : t.WellTiled) {c : Cell} (hc : c ∈ r) :
    t.roleAt? c = some role := by
  obtain ⟨s, hs, -, rfl, rfl, -⟩ := h
  exact hwell.roleAt?_eq hs hc

theorem Stands.isRouteAt (h : t.Stands id r role) (hwell : t.WellTiled) (hrole : role.isRoute = true)
    {c : Cell} (hc : c ∈ r) : t.isRouteAt c = true :=
  isRouteAt_iff.2 ⟨role, h.roleAt? hwell hc, hrole⟩

@[simp] theorem relinked_allocated (t : Tiling) (e : Edit) (s : Segment) :
    (t.relinked e s).allocated = s.allocated := by
  rw [relinked]
  split <;> rfl

theorem BuildStep.stands (hstep : BuildStep t t') (hwell : t.WellTiled) (hrole : role ≠ .register)
    (h : t.Stands id r role) : t'.Stands id r role := by
  obtain ⟨s, hs, rfl, rfl, rfl, htaken⟩ := h
  cases hstep with
  | @commit e ids _ hcommit hremoved =>
      obtain ⟨-, -, -, rfl⟩ := commit_eq_ok_iff.1 hcommit
      have hkept : s.id ∉ e.removed := by
        intro hid
        rw [hremoved s hs hid] at htaken
        cases htaken
      exact ⟨_, mem_replace.2 (.inl ⟨s, hs, hkept, rfl⟩), by simp, by simp, by simp, by simpa⟩
  | @release strip _ hstrip hregister hrelease =>
      obtain ⟨-, rfl⟩ := setRole_eq_ok_iff.1 hrelease
      -- what is released is a strip of registers, so it is another segment
      have hne : s.id ≠ strip.id := by
        intro hid
        rw [hwell.eq_of_id_eq hs hstrip hid] at hrole
        exact hrole hregister
      exact ⟨s, List.mem_map.2 ⟨s, hs, if_neg hne⟩, rfl, rfl, rfl, htaken⟩

theorem Builds.stands (hbuilds : Builds t t') (hwell : t.WellTiled) (hrole : role ≠ .register)
    (h : t.Stands id r role) : t'.Stands id r role := by
  induction hbuilds with
  | refl => exact h
  | tail hbefore hstep ih => exact hstep.stands (hwell.builds hbefore) hrole ih

theorem stands_of_commit {p : Piece} (hp : p ∈ e.added) (htaken : p.allocated = true)
    (hcommit : t.commit e = .ok (ids, t')) : ∃ id, t'.Stands id p.rect p.role := by
  obtain ⟨-, -, -, rfl⟩ := commit_eq_ok_iff.1 hcommit
  obtain ⟨n, hn⟩ := exists_mem_fresh t.nextId hp
  exact ⟨n, _, mem_replace.2 (.inr ⟨_, hn, rfl⟩), rfl, rfl, rfl, htaken⟩

/-- The first number that an edit gives is that of its first piece. -/
theorem stands_first {removed : List Nat} {p : Piece} {rest : List Piece} (htaken : p.allocated = true)
    (hcommit : t.commit ⟨removed, p :: rest⟩ = .ok (ids, t')) : t'.Stands (ids.headD 0) p.rect p.role := by
  obtain ⟨-, -, rfl, rfl⟩ := commit_eq_ok_iff.1 hcommit
  exact ⟨_, mem_replace.2 (.inr ⟨_, List.mem_cons_self, rfl⟩), rfl, rfl, rfl, htaken⟩

theorem Regrouped.builds (h : Regrouped t t') : Builds t t' := by
  refine Relation.ReflTransGen.mono ?_ _ _ h
  rintro u v ⟨e, ids, hcommit, hremoved, -⟩
  exact .commit hcommit fun s hs hid => allocated_of_isFree (hremoved s hs hid)

theorem WellTiled.unallocated_of_segment? (h : t.WellTiled) {u : Segment} (hu : t.segment? id = some u)
    (hfree : u.allocated = false) : ∀ s ∈ t.segments, s.id ∈ [id] → s.allocated = false := by
  intro s hs hid
  obtain ⟨hmem, hsame⟩ := (segment?_eq_some_iff h.ascending).1 hu
  rw [h.eq_of_id_eq hs hmem ((List.mem_singleton.1 hid).trans hsame.symm)]
  exact hfree

theorem WellTiled.builds_partition (h : t.WellTiled) {pieces : List Piece}
    (hpart : t.partition id pieces = .ok (ids, t')) : Builds t t' := by
  obtain ⟨s, hs, hguard⟩ := bind_eq_ok_iff.1 hpart
  obtain ⟨hfree, -⟩ := Outcome.guard_eq_ok_iff.1 hguard
  refine .single (.commit (partition_eq_ok hpart) ?_)
  exact h.unallocated_of_segment? (Outcome.ofOption_eq_ok_iff.1 hs) (by simpa using hfree)

theorem WellTiled.builds_allocAt (h : t.WellTiled) {n : Nat} {b : Box}
    (halloc : t.allocAt id b role = .ok (some (n, t'))) :
    Builds t t' ∧ ∃ inner, Rect.ofBox b = .ok inner ∧ t'.Stands n inner role := by
  obtain ⟨e, later, hsplit, hcommit⟩ := allocAt_eq_some halloc
  obtain ⟨s, inner, hs, hfree, hinner, -, rfl⟩ := splitEdit_eq_ok hsplit
  refine ⟨.single (.commit hcommit (h.unallocated_of_segment? hs hfree)), inner, hinner, ?_⟩
  exact stands_first (p := ⟨inner, role, true⟩) rfl hcommit

theorem WellTiled.builds_carve (h : t.WellTiled) {s : Segment} {band : Rect} {pieces : List Piece}
    (hcarve : t.carve s band pieces = .ok t') : Builds t t' := by
  obtain ⟨⟨ids, u⟩, hpart, hcarve⟩ := bind_eq_ok_iff.1 hcarve
  cases hcarve
  exact h.builds_partition (Outcome.mapRefusal_eq_ok_iff.1 hpart)

def FillPieces (pieces : List Piece) : Prop := ∀ p ∈ pieces, p.role = .register ∨ p.role = .route

/-- A stack is carved out of its segment, whatever its shape. -/
theorem stack_eq_ok {s : Segment} {base : Side} (hstack : t.stack s base = .ok t') :
    ∃ band pieces, t.carve s band pieces = .ok t' ∧ FillPieces pieces := by
  refine ⟨_, _, carve_of_stack hstack, ?_⟩
  rw [stackPlan]
  split_ifs <;> simp [FillPieces, dropAt, Piece.taken]

theorem routeRow_eq_ok {s : Segment} {y : Nat} (hrow : t.routeRow s y = .ok t') :
    ∃ band pieces, t.carve s band pieces = .ok t' ∧ FillPieces pieces :=
  ⟨_, _, carve_of_routeRow hrow, by simp [FillPieces, Piece.taken]⟩

theorem contactRun_eq_ok {s : Segment} {y : Nat} (hrun : t.contactRun s y = .ok t') :
    ∃ band pieces, t.carve s band pieces = .ok t' ∧ FillPieces pieces := by
  rw [contactRun] at hrun
  split at hrun
  · exact routeRow_eq_ok hrun
  · obtain ⟨band, -, hrun⟩ := bind_eq_ok_iff.1 hrun
    exact ⟨_, _, hrun, by simp [FillPieces, Piece.taken]⟩

/-- The moves of a fill: free segments are joined, or one of them is carved. -/
inductive FillMove (t : Tiling) : Tiling → Prop
  | merge {t' : Tiling} (hmerge : t.mergeFree = .ok t') : FillMove t t'
  | carve {s : Segment} {band : Rect} {pieces : List Piece} {t' : Tiling} (hs : s ∈ t.freeSegments)
      (hpieces : FillPieces pieces) (hcarve : t.carve s band pieces = .ok t') : FillMove t t'

theorem moves_of_fillFrom {n : Nat} {skipped : List Rect} (hfill : fillFrom n skipped t = .ok t') :
    Relation.ReflTransGen FillMove t t' := by
  induction n generalizing t skipped with
  | zero =>
      cases hfill
      exact .refl
  | succ n ih =>
      rw [fillFrom] at hfill
      obtain ⟨u, hmerge, hfill⟩ := bind_eq_ok_iff.1 hfill
      refine .head (.merge (Outcome.liftM_eq_ok_iff.1 hmerge)) ?_
      split at hfill
      · cases hfill
        exact .refl
      · next s hfind =>
          have hs := List.mem_of_find?_eq_some hfind
          -- every step but a skipped one carves something out of a segment
          have hcarved {v : Tiling} {skipped : List Rect}
              (hcarve : ∃ band pieces, u.carve s band pieces = .ok v ∧ FillPieces pieces)
              (hfill : fillFrom n skipped v = .ok t') : Relation.ReflTransGen FillMove u t' := by
            obtain ⟨band, pieces, hcarve, hpieces⟩ := hcarve
            exact .head (.carve hs hpieces hcarve) (ih hfill)
          obtain ⟨step, -, hfill⟩ := bind_eq_ok_iff.1 hfill
          cases step with
          | skip => exact ih hfill
          | stack base =>
              obtain ⟨v, hv, hfill⟩ := bind_eq_ok_iff.1 hfill
              exact hcarved (stack_eq_ok hv) hfill
          | routeRow y =>
              obtain ⟨v, hv, hfill⟩ := bind_eq_ok_iff.1 hfill
              exact hcarved (routeRow_eq_ok hv) hfill
          | contactRun y =>
              obtain ⟨v, hv, hfill⟩ := bind_eq_ok_iff.1 hfill
              exact hcarved (contactRun_eq_ok hv) hfill

theorem WellTiled.builds_fillMove (h : t.WellTiled) (hmove : FillMove t t') : Builds t t' := by
  cases hmove with
  | merge hmerge => exact (h.mergeFree hmerge).builds
  | carve _ _ hcarve => exact h.builds_carve hcarve

theorem WellTiled.builds_fillFrom (h : t.WellTiled) {n : Nat} {skipped : List Rect}
    (hfill : fillFrom n skipped t = .ok t') : Builds t t' := by
  have hmoves := moves_of_fillFrom hfill
  clear hfill
  induction hmoves with
  | refl => exact .refl
  | tail _ hmove ih => exact ih.trans ((h.builds ih).builds_fillMove hmove)

theorem WellTiled.isRouteAt_fillMove (h : t.WellTiled) (hmove : FillMove t t') {c : Cell}
    (hc : t.isRouteAt c = true) : t'.isRouteAt c = true := by
  cases hmove with
  | merge hmerge =>
      rw [isRouteAt, ((h.mergeFree hmerge).sameRoles h).roleAt? c]
      exact hc
  | carve hs _ hcarve =>
      obtain ⟨hmem, hfree⟩ := mem_freeSegments.1 hs
      exact (carved_of_carve h hmem hfree hcarve).isRouteAt hc

/-- A fill takes no routing away. -/
theorem WellTiled.isRouteAt_fillFrom (h : t.WellTiled) {n : Nat} (hfill : fillFrom n skipped t = .ok t') {c : Cell}
    (hc : t.isRouteAt c = true) : t'.WellTiled ∧ t'.isRouteAt c = true := by
  have hmoves := moves_of_fillFrom hfill
  clear hfill
  induction hmoves with
  | refl => exact ⟨h, hc⟩
  | tail _ hmove ih => exact ⟨ih.1.builds (ih.1.builds_fillMove hmove), ih.1.isRouteAt_fillMove hmove ih.2⟩

theorem WellTiled.builds_fillRegisters (h : t.WellTiled) (hfill : t.fillRegisters = .ok t') :
    Builds t t' := by
  obtain ⟨budget, -, hfill⟩ := bind_eq_ok_iff.1 hfill
  exact h.builds_fillFrom hfill

end Tiling

end SurfaceFabric
