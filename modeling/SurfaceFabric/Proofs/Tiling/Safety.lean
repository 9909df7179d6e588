import Mathlib.Algebra.Order.BigOperators.Group.List
import Mathlib.Algebra.Order.Group.Nat
import SurfaceFabric.Proofs.Tiling.Roles

/-!
How edits may fail. An edit is refused only if its pieces do not tile exactly what it removes, and if the cells
of the grid can be counted in a word then its arithmetic stays in the word. So a segment that is replaced by a
tiling of it, or has a box taken out of it, is never refused.
-/

namespace SurfaceFabric

namespace Tiling

variable {t t' : Tiling} {e : Edit} {B : Prop}

/-- The cells of the grid can be counted in a word. -/
def InWord (t : Tiling) : Prop := t.height * t.width ≤ Word.top

theorem inWord_of_grid {height width : Nat} (hgrid : t.grid = ⟨0, 0, height, width⟩)
    (hword : height * width ≤ Word.top) : t.InWord := by
  unfold InWord
  rwa [show t.height = height from congrArg Rect.y1 hgrid, show t.width = width from congrArg Rect.x1 hgrid]

theorem InWord.changes (h : t.InWord) (hchanges : Changes t t') : t'.InWord := by
  obtain ⟨hheight, hwidth⟩ := hchanges.grid_eq
  unfold InWord
  rwa [hheight, hwidth]

theorem WellTiled.bounds (h : t.WellTiled) {s : Segment} (hs : s ∈ t.segments) :
    s.rect.y1 ≤ t.height ∧ s.rect.x1 ≤ t.width := by
  have hs' := h.inhabited s hs
  have hincludes := (Rect.includes_iff hs').2 (h.bounded s hs)
  simp only [Rect.includes, Bool.and_eq_true, decide_eq_true_eq] at hincludes
  exact ⟨hincludes.1.1.2, hincludes.2⟩

theorem WellTiled.inWord (h : t.WellTiled) (hword : t.InWord) {s : Segment} (hs : s ∈ t.segments) :
    s.rect.InWord := by
  obtain ⟨hy, hx⟩ := h.inhabited s hs
  obtain ⟨hy1, hx1⟩ := h.bounds hs
  have hheight : t.height ≤ t.height * t.width := Nat.le_mul_of_pos_right _ (by omega)
  have hwidth : t.width ≤ t.height * t.width := Nat.le_mul_of_pos_left _ (by omega)
  exact ⟨(hy1.trans hheight).trans hword, (hx1.trans hwidth).trans hword⟩

/-- Different segments have no more cells together than the grid. -/
theorem WellTiled.sum_le (h : t.WellTiled) {segments : List Segment} (hnodup : (segments.map Segment.id).Nodup)
    (hmem : ∀ s ∈ segments, s ∈ t.segments) :
    ((segments.map Segment.rect).map Rect.cellCount).sum ≤ t.height * t.width := by
  have hapart : (segments.map Segment.rect).Pairwise Rect.Apart := by
    rw [List.nodup_iff_pairwise_ne, List.pairwise_map] at hnodup
    rw [List.pairwise_map]
    exact hnodup.imp_of_mem fun hs hu hne => h.apart _ (hmem _ hs) _ (hmem _ hu) hne
  have hle := Rect.sum_cellCount_le (r := t.grid) hapart (by
    simp only [List.forall_mem_map]
    exact fun s hs => h.bounded s (hmem s hs))
  simpa [Rect.cellCount, grid] using hle

/-! ### Checks -/

theorem failsOnly_totalArea {rects : List Rect} (hrects : ∀ r ∈ rects, r.Inhabited)
    (hB : B → (rects.map Rect.cellCount).sum ≤ Long.top) : FailsOnly (Fault.Allowed B) (totalArea rects) :=
  .of_bounds fun h => ⟨_, totalArea_eq_ok_iff.2
    ⟨fun r hr => ⟨(hrects r hr).1.le, (hrects r hr).2.le⟩, hB h, rfl⟩⟩

theorem failsOnly_removedRects {seen ids : List Nat} :
    FailsOnly (Stop.Allowed B fun _ => ¬(ids.Nodup ∧ (∀ id ∈ ids, id ∉ seen) ∧
      ∀ id ∈ ids, ∃ s ∈ t.segments, s.id = id)) (t.removedRects seen ids) := by
  induction ids generalizing seen with
  | nil => exact .pure _
  | cons id rest ih =>
      rw [removedRects]
      refine .guard (fun hseen h => h.2.1 id List.mem_cons_self hseen) fun hnew => ?_
      refine (FailsOnly.ofOption fun hnone h => ?_).bind fun s _ => ?_
      · obtain ⟨s, hs, heq⟩ := h.2.2 id List.mem_cons_self
        have := List.find?_eq_none.1 hnone s hs
        simp [heq] at this
      · refine (ih.weaken ?_).bind fun rects _ => .pure _
        rintro _ hbad ⟨hnodup, hseen, hpresent⟩
        obtain ⟨hid, hnodup⟩ := List.nodup_cons.1 hnodup
        refine hbad ⟨hnodup, fun n hn hmem => ?_, fun n hn => hpresent n (List.mem_cons_of_mem _ hn)⟩
        rcases List.mem_cons.1 hmem with rfl | hmem
        · exact hid hn
        · exact hseen n (List.mem_cons_of_mem _ hn) hmem

/-- Pieces are refused only if one is empty, two overlap, or one is not covered by what is removed. -/
theorem failsOnly_checkPieces {removed rects : List Rect} (hrects : ∀ r ∈ rects, r.Inhabited)
    (hB : B → (removed.map Rect.cellCount).sum ≤ Long.top) :
    FailsOnly (Stop.Allowed B fun _ => ¬(rects.Pairwise Rect.Apart ∧
      ∀ r ∈ rects, (removed.map fun s => (s.meet r).cellCount).sum = r.cellCount))
      (checkPieces removed rects) := by
  induction rects with
  | nil => exact .pure _
  | cons r rest ih =>
      obtain ⟨hr, hrest⟩ := List.forall_mem_cons.1 hrects
      have hshares : (removed.map fun s => (s.meet r).cellCount).sum ≤ (removed.map Rect.cellCount).sum :=
        List.sum_le_sum fun s _ => Rect.cellCount_le fun c hc => (Rect.mem_meet.1 hc).1
      rw [checkPieces]
      refine .guard (fun hbad h => ?_) fun _ => ?_
      · rw [Rect.isEmpty_eq_false_iff.2 hr, Bool.false_or, List.any_eq_true] at hbad
        obtain ⟨s, hs, hoverlap⟩ := hbad
        rw [Rect.overlaps_eq_false_iff.2 ((List.pairwise_cons.1 h.1).1 s hs)] at hoverlap
        cases hoverlap
      · refine (FailsOnly.lift (failsOnly_totalArea ?_ fun h => ?_)).bind fun covered hcovered => ?_
        · intro m hm
          obtain ⟨s, -, hmeet⟩ := List.mem_filterMap.1 hm
          exact Rect.inhabited_of_intersection? hmeet
        · rw [sum_intersections]
          exact hshares.trans (hB h)
        · refine (FailsOnly.lift (Rect.failsOnly_area hr)).bind fun area harea => ?_
          rw [Outcome.liftM_eq_ok_iff, totalArea_eq_ok_iff, sum_intersections] at hcovered
          rw [Outcome.liftM_eq_ok_iff, Rect.area_eq_ok_iff] at harea
          refine .guard (fun hne h => ?_) fun _ => ?_
          · rw [hcovered.2.2, harea.2] at hne
            exact hne (h.2 r List.mem_cons_self)
          · refine (ih hrest).weaken ?_
            rintro _ hbad ⟨hapart, hcover⟩
            exact hbad ⟨(List.pairwise_cons.1 hapart).2, fun s hs => hcover s (List.mem_cons_of_mem _ hs)⟩

/-- An edit is refused only if its pieces do not tile exactly what it removes. -/
theorem WellTiled.failsOnly_checkEdit (h : t.WellTiled) (hadded : ∀ p ∈ e.added, p.rect.Inhabited)
    (hB : B → t.InWord ∧ ((e.added.map Piece.rect).map Rect.cellCount).sum ≤ Long.top) :
    FailsOnly (Stop.Allowed B fun _ => ¬t.Replaces e) (t.checkEdit e) := by
  have hrects : ∀ r ∈ e.added.map Piece.rect, r.Inhabited := by simpa only [List.forall_mem_map] using hadded
  refine (failsOnly_removedRects.weaken ?_).bind fun rects hremoved => ?_
  · exact fun _ hbad he => hbad ⟨he.nodup, by simp, he.present⟩
  obtain ⟨hnodup, -, removed, hids, hpresent, rfl⟩ := removedRects_eq_ok hremoved
  have hsum (hb : B) : ((removed.map Segment.rect).map Rect.cellCount).sum ≤ Long.top :=
    (h.sum_le (hids ▸ hnodup) hpresent).trans ((hB hb).1.trans (by decide))
  have hapart : (removed.map Segment.rect).Pairwise Rect.Apart := by
    rw [← hids, List.nodup_iff_pairwise_ne, List.pairwise_map] at hnodup
    rw [List.pairwise_map]
    exact hnodup.imp_of_mem fun hs hu hne => h.apart _ (hpresent _ hs) _ (hpresent _ hu) hne
  have hcells (he : t.Replaces e) (c : Cell) :
      (∃ r ∈ e.added.map Piece.rect, c ∈ r) ↔ ∃ r ∈ removed.map Segment.rect, c ∈ r := by
    simp only [List.mem_map, exists_exists_and_eq_and, he.exact, ← hids]
    constructor
    · rintro ⟨s, hs, ⟨u, hu, heq⟩, hc⟩
      exact ⟨u, hu, h.eq_of_id_eq hs (hpresent u hu) heq.symm ▸ hc⟩
    · rintro ⟨s, hs, hc⟩
      exact ⟨s, hpresent s hs, ⟨s, hs, rfl⟩, hc⟩
  refine (FailsOnly.lift (failsOnly_totalArea ?_ hsum)).bind fun total htotal => ?_
  · simp only [List.forall_mem_map]
    exact fun s hs => h.inhabited s (hpresent s hs)
  refine (FailsOnly.lift (failsOnly_totalArea hrects fun hb => (hB hb).2)).bind fun total' htotal' => ?_
  refine .guard (fun hne he => hne ?_) fun _ => ?_
  · rw [Outcome.liftM_eq_ok_iff, totalArea_eq_ok_iff] at htotal htotal'
    rw [htotal.2.2, htotal'.2.2, ← Rect.card_union hapart, ← Rect.card_union (List.pairwise_map.2 he.apart)]
    congr 1
    ext p
    simpa only [Rect.mem_union] using (hcells he ⟨p.1, p.2⟩).symm
  · refine (failsOnly_checkPieces hrects hsum).weaken fun _ hbad he => hbad ⟨List.pairwise_map.2 he.apart, ?_⟩
    exact fun r hr => Rect.sum_meets hapart fun c hc => (hcells he c).1 ⟨r, hr, hc⟩

theorem pairwiseApart_eq_true_iff {rects : List Rect} :
    pairwiseApart rects = true ↔ rects.Pairwise Rect.Apart := by
  induction rects with
  | nil => simp [pairwiseApart]
  | cons r rest ih =>
      simp only [pairwiseApart, Bool.and_eq_true, Bool.not_eq_true', List.any_eq_false, Bool.not_eq_true,
        Rect.overlaps_eq_false_iff, ih, List.pairwise_cons]

theorem failsOnly_nextIdAfter {n : Nat} : FailsOnly (Fault.Allowed B) (t.nextIdAfter n) :=
  .ite (fun _ => .ok _) fun _ => .error fun _ => rfl

theorem WellTiled.failsOnly_commit (h : t.WellTiled) (hadded : ∀ p ∈ e.added, p.rect.Inhabited)
    (hB : B → t.InWord ∧ ((e.added.map Piece.rect).map Rect.cellCount).sum ≤ Long.top) :
    FailsOnly (Stop.Allowed B fun _ => ¬t.Replaces e) (t.commit e) :=
  (h.failsOnly_checkEdit hadded hB).bind fun _ _ => (FailsOnly.lift failsOnly_nextIdAfter).bind fun _ _ => .pure _

/-! ### Cutting one segment -/

section Single

variable {s : Segment} {pieces : List Piece} (h : t.WellTiled) (hs : s ∈ t.segments)

include h hs

theorem WellTiled.replaces_single (htiles : s.rect.Tiles (pieces.map Piece.rect))
    (hpieces : ∀ p ∈ pieces, p.rect.Inhabited) : t.Replaces ⟨[s.id], pieces⟩ := by
  refine ⟨List.nodup_singleton _, ?_, hpieces, List.pairwise_map.1 htiles.apart, fun c => ?_⟩
  · rintro id hid
    exact ⟨s, hs, (List.mem_singleton.1 hid).symm⟩
  · have hexact := htiles.exact c
    simp only [List.mem_map, exists_exists_and_eq_and] at hexact
    rw [← hexact]
    constructor
    · exact fun hc => ⟨s, hs, List.mem_singleton_self _, hc⟩
    · rintro ⟨u, hu, hid, hc⟩
      rwa [h.eq_of_id_eq hu hs (List.mem_singleton.1 hid)] at hc

theorem WellTiled.cellCount_le (hword : t.InWord) : s.rect.cellCount ≤ Word.top := by
  have hle := Rect.cellCount_le (h.bounded s hs)
  simp only [Rect.cellCount, grid, Nat.sub_zero] at hle ⊢
  exact hle.trans hword

theorem WellTiled.failsOnly_commit_single (htiles : s.rect.Tiles (pieces.map Piece.rect))
    (hpieces : ∀ p ∈ pieces, p.rect.Inhabited) (hB : B → t.InWord) :
    FailsOnly (Stop.Allowed B fun _ => False) (t.commit ⟨[s.id], pieces⟩) := by
  refine (h.failsOnly_commit hpieces fun hb => ⟨hB hb, ?_⟩).weaken ?_
  · rw [htiles.sum_cellCount]
    exact (h.cellCount_le hs (hB hb)).trans (by decide)
  · exact fun _ hbad => hbad (h.replaces_single hs htiles hpieces)

/-- A free segment can be replaced by any tiling of it. -/
theorem WellTiled.failsOnly_partition (hfree : s.allocated = false)
    (htiles : s.rect.Tiles (pieces.map Piece.rect)) (hpieces : ∀ p ∈ pieces, p.rect.Inhabited)
    (hB : B → t.InWord) : FailsOnly (Stop.Allowed B fun _ => False) (t.partition s.id pieces) := by
  have hsegment := (segment?_eq_some_iff h.ascending).2 ⟨hs, rfl⟩
  have hrects : ∀ r ∈ pieces.map Piece.rect, r.Inhabited := by
    simpa only [List.forall_mem_map] using hpieces
  have hsum := htiles.sum_cellCount
  refine (FailsOnly.ofOption fun hnone => ?_).bind fun s' hs' => ?_
  · rw [hsegment] at hnone
    cases hnone
  obtain rfl : s = s' := by
    rw [Outcome.ofOption_eq_ok_iff, hsegment] at hs'
    exact Option.some.inj hs'
  refine .guard (fun hallocated => ?_) fun _ => ?_
  · rw [hfree] at hallocated
    cases hallocated
  refine (FailsOnly.lift (failsOnly_totalArea hrects fun hb => ?_)).bind fun total htotal => ?_
  · rw [hsum]
    exact (h.cellCount_le hs (hB hb)).trans (by decide)
  refine (FailsOnly.lift (Rect.failsOnly_area (h.inhabited s hs))).bind fun area harea => ?_
  refine .guard (fun hbad => ?_) fun _ => h.failsOnly_commit_single hs htiles hpieces hB
  rw [Outcome.liftM_eq_ok_iff, totalArea_eq_ok_iff] at htotal
  rw [Outcome.liftM_eq_ok_iff, Rect.area_eq_ok_iff] at harea
  simp only [Bool.or_eq_true, decide_eq_true_eq, Bool.not_eq_true', List.any_eq_true] at hbad
  rcases hbad with (hne | hoverlap) | ⟨r, hr, hempty | houtside⟩
  · exact hne (by rw [htotal.2.2, harea.2, hsum])
  · rw [pairwiseApart_eq_true_iff.2 htiles.apart] at hoverlap
    cases hoverlap
  · rw [Rect.isEmpty_eq_false_iff.2 (hrects r hr)] at hempty
    cases hempty
  · rw [(Rect.includes_iff (hrects r hr)).2 fun c hc => htiles.inside hr hc] at houtside
    cases houtside

/-- A box in a free segment is refused only if it is empty or sticks out. -/
theorem WellTiled.failsOnly_splitEdit (hfree : s.allocated = false) {b : Box}
    (hB : B → b.y + b.h ≤ Word.top ∧ b.x + b.w ≤ Word.top) :
    FailsOnly (Stop.Allowed B fun _ => ¬(b.rect.Inhabited ∧ s.rect.includes b.rect = true))
      (t.splitEdit s.id b) := by
  have hsegment := (segment?_eq_some_iff h.ascending).2 ⟨hs, rfl⟩
  refine (FailsOnly.ofOption fun hnone => ?_).bind fun s' hs' => ?_
  · rw [hsegment] at hnone
    cases hnone
  obtain rfl : s = s' := by
    rw [Outcome.ofOption_eq_ok_iff, hsegment] at hs'
    exact Option.some.inj hs'
  refine .guard (fun hallocated => ?_) fun _ => ?_
  · rw [hfree] at hallocated
    cases hallocated
  refine (FailsOnly.lift (Rect.failsOnly_ofBox hB)).bind fun inner hinner => ?_
  obtain rfl := Rect.ofBox_eq_ok (Outcome.liftM_eq_ok_iff.1 hinner)
  refine .guard (fun hbad hinside => ?_) fun _ => .pure _
  rw [show (⟨b.y, b.x, b.y + b.h, b.x + b.w⟩ : Rect) = b.rect from rfl,
    Rect.isEmpty_eq_false_iff.2 hinside.1, hinside.2] at hbad
  cases hbad

/-- What a box leaves of a segment, with the box itself first. -/
theorem WellTiled.failsOnly_claim {b : Box} {role : Role} (hsplit : t.splitEdit s.id b = .ok e) (hB : B → t.InWord) :
    FailsOnly (Stop.Allowed B fun _ => False) (t.commit (claimFirst role e)) := by
  obtain ⟨s', inner, hs', -, -, ⟨hinner, hincludes⟩, rfl⟩ := splitEdit_eq_ok hsplit
  rw [segment?_eq_some_iff h.ascending] at hs'
  obtain rfl := h.eq_of_id_eq hs'.1 hs hs'.2
  have htiles := Rect.tiles_remainder hinner hincludes
  show FailsOnly _ (t.commit ⟨[s'.id], ⟨inner, role, true⟩ :: (s'.rect.remainder inner).map
    fun r => ⟨r, s'.role, false⟩⟩)
  refine h.failsOnly_commit_single hs ?_ ?_ hB
  · simpa [Function.comp_def] using htiles
  · simp only [List.forall_mem_cons, List.forall_mem_map]
    exact ⟨hinner, fun r hr => Rect.inhabited_of_remainder hr⟩

theorem WellTiled.failsOnly_allocAt {b : Box} {role : Role}
    (hB : B → t.InWord ∧ b.y + b.h ≤ Word.top ∧ b.x + b.w ≤ Word.top) :
    FailsOnly (Fault.Allowed B) (t.allocAt s.id b role) := by
  obtain ⟨hy, hx⟩ := h.inhabited s hs
  unfold Tiling.allocAt
  rw [(segment?_eq_some_iff h.ascending).2 ⟨hs, rfl⟩]
  refine .ite (fun _ => .pure _) fun hfree => ?_
  refine (Word.failsOnly_sub fun _ => hy.le).bind fun _ _ => .ite (fun _ => .pure _) fun _ => ?_
  refine (Word.failsOnly_sub fun _ => hx.le).bind fun _ _ => .ite (fun _ => .pure _) fun _ => ?_
  refine (h.failsOnly_splitEdit hs (Bool.eq_false_of_not_eq_true hfree) fun hb => (hB hb).2).toOption.bind
    fun found hfound => ?_
  cases found with
  | none => exact .pure _
  | some e =>
      have hsplit := Outcome.toOption_eq_ok_some_iff.1 hfound
      exact (h.failsOnly_claim hs hsplit fun hb => (hB hb).1).toOption.bind fun _ _ => .pure _

/-- A box that lies in a free segment is allocated, if numbers last. -/
theorem WellTiled.allocAt_ne_none (hfree : s.allocated = false) {b : Box} {role : Role}
    (hb : b.rect.Inhabited) (hincludes : s.rect.includes b.rect = true) :
    t.allocAt s.id b role ≠ .ok none := by
  intro hnone
  obtain ⟨hy, hx⟩ := h.inhabited s hs
  have hsize : b.h ≤ s.rect.y1 - s.rect.y0 ∧ b.w ≤ s.rect.x1 - s.rect.x0 := by
    have hbounds := hincludes
    simp only [Rect.includes, Bool.and_eq_true, decide_eq_true_eq] at hbounds
    simp only [Box.rect] at hbounds
    omega
  unfold Tiling.allocAt at hnone
  rw [(segment?_eq_some_iff h.ascending).2 ⟨hs, rfl⟩] at hnone
  dsimp only at hnone
  rw [if_neg (by simp [hfree]), Rect.height_eq_ok hy.le, Rect.width_eq_ok hx.le] at hnone
  obtain ⟨_, hh, hnone⟩ := bind_eq_ok_iff.1 hnone
  obtain rfl := Except.ok.inj hh
  rw [if_neg (Nat.not_lt.2 hsize.1)] at hnone
  obtain ⟨_, hw, hnone⟩ := bind_eq_ok_iff.1 hnone
  obtain rfl := Except.ok.inj hw
  rw [if_neg (Nat.not_lt.2 hsize.2)] at hnone
  obtain ⟨found, hfound, hnone⟩ := bind_eq_ok_iff.1 hnone
  cases found with
  | none =>
      refine FailsOnly.toOption_ne_none ((h.failsOnly_splitEdit (B := False) hs hfree False.elim).weaken ?_) hfound
      exact fun _ hbad => hbad ⟨hb, hincludes⟩
  | some e =>
      have hsplit := Outcome.toOption_eq_ok_some_iff.1 hfound
      obtain ⟨made, hmade, hnone⟩ := bind_eq_ok_iff.1 hnone
      cases made with
      | none => exact (h.failsOnly_claim (B := False) hs hsplit False.elim).toOption_ne_none hmade
      | some made =>
          obtain ⟨ids, t'⟩ := made
          obtain ⟨-, -, rfl, -⟩ := commit_eq_ok_iff.1 (Outcome.toOption_eq_ok_some_iff.1 hmade)
          obtain ⟨s', inner, -, -, -, -, rfl⟩ := splitEdit_eq_ok hsplit
          simp [claimFirst, fresh, firstOf] at hnone

end Single

end Tiling

end SurfaceFabric
