import Mathlib.Algebra.Order.BigOperators.Group.List
import Mathlib.Algebra.Order.Group.Nat
import SurfaceFabric.Proofs.Placement.Fill
import SurfaceFabric.Proofs.Placement.Standing
import SurfaceFabric.Proofs.Tiling.FreeSpace
import SurfaceFabric.Proofs.Tiling.Safety

/-!
The turns of a fill. In each of them free segments are joined, and then the first one that was not passed over
before is passed over or loses a band to registers and routing. A band leaves at most two free rectangles
behind, so the free cells and rectangles bound the number of turns, and a fill that is not cut short ends when all
that is free was passed over.
-/

namespace SurfaceFabric

/-- A band of a rectangle from side to side or from top to bottom. -/
structure Rect.Crosses (band r : Rect) : Prop where
  inhabited : band.Inhabited
  included : r.includes band = true
  across : band.x0 = r.x0 ∧ band.x1 = r.x1 ∨ band.y0 = r.y0 ∧ band.y1 = r.y1

theorem Rect.Crosses.length_remainder_le {band r : Rect} (h : band.Crosses r) :
    (r.remainder band).length ≤ 2 := by
  unfold Rect.remainder
  rcases h.across with ⟨hleft, hright⟩ | ⟨htop, hbottom⟩
  · rw [hleft, hright]
    simp only [List.filter_cons, Rect.isEmpty, le_refl, decide_true, Bool.or_true, Bool.not_true,
      Bool.false_eq_true, if_false]
    split_ifs <;> simp
  · rw [htop, hbottom]
    simp only [List.filter_cons, Rect.isEmpty, le_refl, decide_true, Bool.true_or, Bool.not_true,
      Bool.false_eq_true, if_false]
    split_ifs <;> simp

theorem Rect.Inhabited.cellCount_pos {r : Rect} (h : r.Inhabited) : 0 < r.cellCount :=
  Nat.mul_pos (Nat.sub_pos_of_lt h.1) (Nat.sub_pos_of_lt h.2)

namespace Tiling

variable {t t' v : Tiling} {skipped skipped' : List Rect} {s : Segment}

/-! ### Turns -/

def enact (t : Tiling) (s : Segment) : FillStep → Outcome PlacementError Tiling
  | .skip => return t
  | .stack base => t.stack s base
  | .routeRow y => t.routeRow s y
  | .contactRun y => t.contactRun s y

/-- The rectangles passed over once a step is taken on one. -/
def passed (skipped : List Rect) (r : Rect) : FillStep → List Rect
  | .skip => r :: skipped
  | _ => skipped

theorem passed_of_ne {r : Rect} {step : FillStep} (h : step ≠ .skip) : passed skipped r step = skipped := by
  cases step with
  | skip => exact absurd rfl h
  | _ => rfl

theorem fillFrom_succ (n : Nat) (skipped : List Rect) (t : Tiling) : fillFrom (n + 1) skipped t = (do
    let u ← t.mergeFree
    match u.freeSegments.find? fun s => s.rect ∉ skipped with
    | none => return u
    | some s => do
        let step ← u.fillStep s.rect
        let v ← u.enact s step
        fillFrom n (passed skipped s.rect step) v) := by
  rw [fillFrom]
  refine bind_congr fun u => ?_
  cases u.freeSegments.find? fun s => s.rect ∉ skipped with
  | none => rfl
  | some s =>
      refine bind_congr fun step => ?_
      cases step <;> rfl

inductive Turn (skipped : List Rect) (t : Tiling) : List Rect → Tiling → Prop
  | intro {u v : Tiling} {s : Segment} {step : FillStep} (hmerge : t.mergeFree = .ok u)
      (hfind : u.freeSegments.find? (fun s => s.rect ∉ skipped) = some s)
      (hstep : u.fillStep s.rect = .ok step) (henact : u.enact s step = .ok v) :
      Turn skipped t (passed skipped s.rect step) v

/-- A fill with turns left ends because all that is free was passed over, or takes a turn. -/
theorem fillFrom_cases {n : Nat} (hfill : fillFrom (n + 1) skipped t = .ok t') :
    (∀ r ∈ t'.freeRects, r ∈ skipped) ∨
      ∃ skipped' v, Turn skipped t skipped' v ∧ fillFrom n skipped' v = .ok t' := by
  rw [fillFrom_succ] at hfill
  obtain ⟨u, hmerge, hfill⟩ := bind_eq_ok_iff.1 hfill
  rw [Outcome.liftM_eq_ok_iff] at hmerge
  split at hfill
  · next hfind =>
      cases hfill
      refine .inl fun r hr => ?_
      obtain ⟨s, hs, rfl⟩ := mem_freeRects.1 hr
      simpa using List.find?_eq_none.1 hfind s hs
  · next s hfind =>
      obtain ⟨step, hstep, hfill⟩ := bind_eq_ok_iff.1 hfill
      obtain ⟨v, henact, hfill⟩ := bind_eq_ok_iff.1 hfill
      exact .inr ⟨_, v, .intro hmerge hfind (Outcome.liftM_eq_ok_iff.1 hstep) henact, hfill⟩

/-- A fill goes on from where a turn leads to. -/
theorem Turn.fillFrom {n : Nat} (h : Turn skipped t skipped' v) (hfill : fillFrom n skipped' v = .ok t') :
    fillFrom (n + 1) skipped t = .ok t' := by
  obtain ⟨hmerge, hfind, hstep, henact⟩ := h
  rw [fillFrom_succ]
  refine bind_eq_ok_iff.2 ⟨_, Outcome.liftM_eq_ok_iff.2 hmerge, ?_⟩
  rw [hfind]
  refine bind_eq_ok_iff.2 ⟨_, Outcome.liftM_eq_ok_iff.2 hstep, ?_⟩
  exact bind_eq_ok_iff.2 ⟨_, henact, hfill⟩

theorem WellTiled.turn (h : t.WellTiled) (hturn : Turn skipped t skipped' v) : v.WellTiled :=
  h.builds (h.builds_fillFrom (n := 1) (hturn.fillFrom rfl))

/-! ### Effort -/

/-- The turns that a free rectangle can cost a fill: three for each of its cells, and one if it was passed over
or two if it was not. -/
def cost (skipped : List Rect) (r : Rect) : Nat := 3 * r.cellCount + if r ∈ skipped then 1 else 2

/-- Bound on the turns of a fill, in terms of the free cells and rectangles. -/
def effort (skipped : List Rect) (t : Tiling) : Nat := (t.freeRects.map (cost skipped)).sum

theorem cost_le (skipped : List Rect) (r : Rect) : cost skipped r ≤ 3 * r.cellCount + 2 := by
  unfold cost
  split <;> omega

theorem lt_cost (skipped : List Rect) (r : Rect) : 3 * r.cellCount < cost skipped r := by
  unfold cost
  split <;> omega

theorem cost_cons_le (q r : Rect) : cost (q :: skipped) r ≤ cost skipped r := by
  by_cases hr : r ∈ skipped
  · simp [cost, hr]
  · refine (cost_le _ r).trans_eq ?_
    rw [cost, if_neg hr]

theorem sum_cost_le (skipped rects : List Rect) :
    (rects.map (cost skipped)).sum ≤ 3 * (rects.map Rect.cellCount).sum + 2 * rects.length := by
  induction rects with
  | nil => exact le_rfl
  | cons r rest ih =>
      have hfirst := cost_le skipped r
      simp only [List.map_cons, List.sum_cons, List.length_cons]
      omega

theorem effort_of_perm {gone made : List Rect} (hperm : (gone ++ t'.freeRects).Perm (made ++ t.freeRects)) :
    (gone.map (cost skipped)).sum + t'.effort skipped = (made.map (cost skipped)).sum + t.effort skipped := by
  have hsum := (hperm.map (cost skipped)).sum_eq
  rwa [List.map_append, List.map_append, List.sum_append, List.sum_append] at hsum

theorem WellTiled.effort_le (h : t.WellTiled) (skipped : List Rect) :
    t.effort skipped ≤ 3 * (t.height * t.width) + 2 * t.freeRects.length := by
  have hcells : (t.freeRects.map Rect.cellCount).sum ≤ t.height * t.width :=
    h.sum_le h.nodup_freeSegments fun s hs => (mem_freeSegments.1 hs).1
  have hsum := sum_cost_le skipped t.freeRects
  unfold effort
  omega

/-- Of a pair that is joined, both have turns to give. -/
theorem WellTiled.effort_mergePair (h : t.WellTiled) {join? : Rect → Rect → Option Rect} {a b n : Nat}
    (hmerge : t.mergePair join? a b = .ok (some (n, t'))) : t'.effort skipped ≤ t.effort skipped := by
  obtain ⟨r, -, s, -, merged, -, htiles, hperm⟩ := h.freeRects_mergePair hmerge
  have hsum : (([r, s].map (cost skipped)).sum + t'.effort skipped) =
    ([merged].map (cost skipped)).sum + t.effort skipped := effort_of_perm hperm
  have hcells := htiles.sum_cellCount
  simp only [List.map_cons, List.map_nil, List.sum_cons, List.sum_nil] at hsum hcells
  have hr := lt_cost skipped r
  have hs := lt_cost skipped s
  have hmerged := cost_le skipped merged
  omega

theorem WellTiled.effort_mergeFree (h : t.WellTiled) (skipped : List Rect) (hmerge : t.mergeFree = .ok t') :
    t'.WellTiled ∧ t'.effort skipped ≤ t.effort skipped := by
  have hjoins := joins_of_mergeFree hmerge
  clear hmerge
  induction hjoins with
  | refl => exact ⟨h, le_rfl⟩
  | tail _ hjoin ih =>
      refine ⟨ih.1.join hjoin, le_trans ?_ ih.2⟩
      cases hjoin with
      | vertical hmerge => exact ih.1.effort_mergePair hmerge
      | horizontal hmerge => exact ih.1.effort_mergePair hmerge

/-- What is free after a band is carved out of a free segment. -/
theorem WellTiled.freeRects_carve (h : t.WellTiled) (hs : s ∈ t.freeSegments) {band : Rect}
    {pieces : List Piece} (htaken : ∀ p ∈ pieces, p.allocated = true)
    (hcarve : t.carve s band pieces = .ok t') :
    (s.rect :: t'.freeRects).Perm (s.rect.remainder band ++ t.freeRects) := by
  obtain ⟨⟨ids, u⟩, hpart, hcarve⟩ := bind_eq_ok_iff.1 hcarve
  cases hcarve
  have hcommit := partition_eq_ok (Outcome.mapRefusal_eq_ok_iff.1 hpart)
  have hperm := h.freeRects_commit [s] rfl (by simpa using hs) hcommit
  have hused : (pieces.filter fun p => !p.rect.isEmpty).filter Piece.isFree = [] := by
    refine List.filter_eq_nil_iff.2 fun p hp => ?_
    simp [Piece.isFree, htaken p (List.mem_filter.1 hp).1]
  rwa [List.filter_append, hused, List.nil_append, Piece.rects_free] at hperm

theorem WellTiled.effort_carve (h : t.WellTiled) (hs : s ∈ t.freeSegments) (hopen : s.rect ∉ skipped)
    {band : Rect} {pieces : List Piece} (hband : band.Crosses s.rect) (htaken : ∀ p ∈ pieces, p.allocated = true)
    (hcarve : t.carve s band pieces = .ok t') : t'.effort skipped < t.effort skipped := by
  have hsum : (([s.rect].map (cost skipped)).sum + t'.effort skipped) =
    ((s.rect.remainder band).map (cost skipped)).sum + t.effort skipped :=
      effort_of_perm (h.freeRects_carve hs htaken hcarve)
  have hcells := (Rect.tiles_remainder hband.inhabited hband.included).sum_cellCount
  have hrest := sum_cost_le skipped (s.rect.remainder band)
  have htwo := hband.length_remainder_le
  have hpos := hband.inhabited.cellCount_pos
  simp only [List.map_cons, List.map_nil, List.sum_cons, List.sum_nil, cost, if_neg hopen] at hsum hcells
  -- the two rectangles left cost up to four, against two for the segment and three for each cell of the band
  omega

theorem stackPlan_crosses {r : Rect} (hr : r.Inhabited) (base : Side) :
    (t.stackPlan r base).1.Crosses r ∧ ∀ p ∈ (t.stackPlan r base).2, p.allocated = true := by
  obtain ⟨hincluded, hinhabited, -⟩ := @tiles_stackPlan t r base hr
  refine ⟨⟨hinhabited, hincluded, .inl ?_⟩, ?_⟩
  · rcases stackPlan_cases hr base with hband | ⟨-, hband, -⟩
    · rw [hband]
      exact ⟨rfl, rfl⟩
    · rw [hband]
      cases base <;> exact ⟨rfl, rfl⟩
  · unfold stackPlan
    dsimp only
    generalize (if base = .below then t.columnsAbove r else t.columnsBelow r) = far
    split_ifs <;> simp [dropAt, Piece.taken]

/-- Whatever a step takes of a segment, it is a band across it. -/
theorem carve_of_enact (hr : s.rect.Inhabited) {step : FillStep} (hfits : t.Fits s.rect step)
    (htake : step ≠ .skip) (henact : t.enact s step = .ok t') : ∃ (band : Rect) (pieces : List Piece),
      band.Crosses s.rect ∧ (∀ p ∈ pieces, p.allocated = true) ∧ t.carve s band pieces = .ok t' := by
  have hrow {y : Nat} (hy : s.rect.y0 ≤ y ∧ y < s.rect.y1) (hrow : t.routeRow s y = .ok t') :
      ∃ (band : Rect) (pieces : List Piece),
        band.Crosses s.rect ∧ (∀ p ∈ pieces, p.allocated = true) ∧ t.carve s band pieces = .ok t' := by
    obtain ⟨hinhabited, hincluded⟩ := row_included hr hy
    refine ⟨_, _, ⟨hinhabited, hincluded, .inl ⟨rfl, ?_⟩⟩, by simp [Piece.taken], carve_of_routeRow hrow⟩
    exact Nat.add_sub_cancel' hr.2.le
  cases step with
  | skip => exact absurd rfl htake
  | stack base =>
      obtain ⟨hcrosses, htaken⟩ := stackPlan_crosses (t := t) hr base
      exact ⟨_, _, hcrosses, htaken, carve_of_stack henact⟩
  | routeRow y =>
      obtain ⟨e, he, rfl, -⟩ := hfits
      obtain ⟨hy0, hy1, -⟩ := Rect.mem_iff.1 he
      exact hrow ⟨hy0, hy1⟩ henact
  | contactRun y =>
      obtain ⟨hheight, -⟩ := hfits
      rw [enact, contactRun] at henact
      split at henact
      · exact hrow ⟨le_rfl, hr.1⟩ henact
      · next x rest hcolumns =>
          obtain ⟨band, hband, henact⟩ := bind_eq_ok_iff.1 henact
          obtain rfl := Rect.ofBox_eq_ok (Outcome.liftM_eq_ok_iff.1 hband)
          obtain ⟨hinhabited, hincluded⟩ := run_included hr hcolumns
          exact ⟨_, _, ⟨hinhabited, hincluded, .inr ⟨rfl, hheight.symm⟩⟩, by simp [Piece.taken], henact⟩

/-- Every turn takes something off the effort. -/
theorem WellTiled.effort_turn (h : t.WellTiled) (hturn : Turn skipped t skipped' v) :
    v.effort skipped' < t.effort skipped := by
  cases hturn with
  | @intro u v s step hmerge hfind hstep henact =>
      obtain ⟨hu, hle⟩ := h.effort_mergeFree skipped hmerge
      have hs := List.mem_of_find?_eq_some hfind
      have hopen : s.rect ∉ skipped := by simpa using List.find?_some hfind
      refine lt_of_lt_of_le ?_ hle
      by_cases hskip : step = .skip
      · subst hskip
        cases henact
        -- nothing is carved out, but the segment counts as passed over from now on
        refine List.sum_lt_sum _ _ (fun r _ => cost_cons_le s.rect r) ⟨s.rect, List.mem_map_of_mem hs, ?_⟩
        simp [cost, passed, hopen]
      · have hr := hu.inhabited s (mem_freeSegments.1 hs).1
        obtain ⟨band, pieces, hband, htaken, hcarve⟩ :=
          carve_of_enact hr (fillStep_fits hr hstep) hskip henact
        rw [passed_of_ne hskip]
        exact hu.effort_carve hs hopen hband htaken hcarve

end Tiling

end SurfaceFabric
