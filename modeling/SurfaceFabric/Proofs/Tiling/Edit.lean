import SurfaceFabric.Proofs.Rect

/-!
What a checked edit guarantees. Its pieces do not overlap and cover exactly the cells of the removed
segments: each lies in them as its area is accounted for, and together they have the same area.
-/

namespace SurfaceFabric

theorem Segment.eq_of_id_eq {segments : List Segment} {s u : Segment}
    (h : segments.Pairwise fun s u => s.id < u.id) (hs : s ∈ segments) (hu : u ∈ segments)
    (heq : s.id = u.id) : s = u := by
  have hnodup : (segments.map Segment.id).Nodup := by
    rw [List.nodup_iff_pairwise_ne, List.pairwise_map]
    exact h.imp fun hlt => hlt.ne
  exact List.inj_on_of_nodup_map hnodup hs hu heq

namespace Tiling

theorem mem_of_segment? {t : Tiling} {id : Nat} {s : Segment} (h : t.segment? id = some s) :
    s ∈ t.segments ∧ s.id = id := by
  refine ⟨List.mem_of_find?_eq_some h, ?_⟩
  simpa using List.find?_some h

theorem segment?_eq_some_iff {t : Tiling} (hids : t.segments.Pairwise fun s u => s.id < u.id)
    {id : Nat} {s : Segment} : t.segment? id = some s ↔ s ∈ t.segments ∧ s.id = id := by
  refine ⟨mem_of_segment?, ?_⟩
  rintro ⟨hs, rfl⟩
  obtain ⟨u, hu⟩ := Option.isSome_iff_exists.1 (show (t.segment? s.id).isSome = true from
    List.find?_isSome.2 ⟨s, hs, by simp⟩)
  obtain ⟨humem, hid⟩ := mem_of_segment? hu
  rw [hu, Option.some.injEq]
  exact Segment.eq_of_id_eq hids humem hs hid

theorem removedRects_eq_ok {t : Tiling} {seen ids : List Nat} {rects : List Rect}
    (h : t.removedRects seen ids = .ok rects) :
    ids.Nodup ∧ (∀ id ∈ ids, id ∉ seen) ∧
      ∃ removed : List Segment, removed.map Segment.id = ids ∧ (∀ s ∈ removed, s ∈ t.segments) ∧
        rects = removed.map Segment.rect := by
  induction ids generalizing seen rects with
  | nil =>
      simp only [removedRects, pure_eq_ok_iff] at h
      exact ⟨List.nodup_nil, by simp, [], rfl, by simp, h.symm⟩
  | cons id rest ih =>
      rw [removedRects] at h
      obtain ⟨hnot, h⟩ := Outcome.guard_eq_ok_iff.1 h
      obtain ⟨s, hs, h⟩ := bind_eq_ok_iff.1 h
      obtain ⟨later, hlater, h⟩ := bind_eq_ok_iff.1 h
      rw [segment, Outcome.ofOption_eq_ok_iff] at hs
      obtain ⟨hmem, hid⟩ := mem_of_segment? hs
      obtain ⟨hnodup, hnew, removed, hids, hpresent, hrects⟩ := ih hlater
      refine ⟨List.nodup_cons.2 ⟨fun hin => hnew id hin (by simp), hnodup⟩, ?_, s :: removed, ?_, ?_, ?_⟩
      · intro n hn
        rcases List.mem_cons.1 hn with rfl | hn
        · exact hnot
        · exact fun hin => hnew n hn (by simp [hin])
      · rw [List.map_cons, hid, hids]
      · intro u hu
        rcases List.mem_cons.1 hu with rfl | hu
        · exact hmem
        · exact hpresent u hu
      · rw [List.map_cons, ← hrects]
        exact (pure_eq_ok_iff.1 h).symm

end Tiling

theorem Long.sum_eq_ok_iff {l : List Nat} {n : Nat} :
    Long.sum l = .ok n ↔ l.sum ≤ Long.top ∧ n = l.sum := by
  induction l generalizing n with
  | nil => simp [Long.sum, eq_comm]
  | cons a rest ih =>
      simp only [Long.sum, bind_eq_ok_iff, ih, Long.add_eq_ok_iff, List.sum_cons]
      constructor
      · rintro ⟨m, ⟨-, rfl⟩, hle, rfl⟩
        exact ⟨hle, rfl⟩
      · rintro ⟨hle, rfl⟩
        exact ⟨_, ⟨by omega, rfl⟩, hle, rfl⟩

theorem mapM_eq_ok_iff {α β : Type} {f : α → Checked β} {l : List α} {m : List β} :
    l.mapM f = .ok m ↔ List.Forall₂ (fun a b => f a = .ok b) l m := by
  induction l generalizing m with
  | nil =>
      simp only [List.mapM_nil, pure_eq_ok_iff, List.forall₂_nil_left_iff]
      exact eq_comm
  | cons a rest ih =>
      simp only [List.mapM_cons, bind_eq_ok_iff, pure_eq_ok_iff, ih, List.forall₂_cons_left_iff]
      constructor
      · rintro ⟨b, hb, bs, hbs, rfl⟩
        exact ⟨b, bs, hb, hbs, rfl⟩
      · rintro ⟨b, bs, hb, hbs, rfl⟩
        exact ⟨b, hb, bs, hbs, rfl⟩

theorem mapM_map_eq_ok {α β γ : Type} {f : β → Checked γ} {g : α → β} {k : α → γ} {l : List α}
    (h : ∀ a ∈ l, f (g a) = .ok (k a)) : (l.map g).mapM f = .ok (l.map k) := by
  rw [mapM_eq_ok_iff, List.forall₂_map_left_iff, List.forall₂_map_right_iff, List.forall₂_same]
  exact h

theorem eq_map_of_mapM {α β : Type} {f : α → Checked β} {g : α → β} {l : List α} {m : List β}
    (h : l.mapM f = .ok m) (hf : ∀ a b, f a = .ok b → b = g a) : m = l.map g := by
  replace h := mapM_eq_ok_iff.1 h
  induction h with
  | nil => rfl
  | cons hb _ ih => rw [List.map_cons, hf _ _ hb, ih]

namespace Tiling

theorem totalArea_eq_ok_iff {rects : List Rect} {n : Nat} : totalArea rects = .ok n ↔
    (∀ r ∈ rects, r.y0 ≤ r.y1 ∧ r.x0 ≤ r.x1) ∧ (rects.map Rect.cellCount).sum ≤ Long.top ∧
      n = (rects.map Rect.cellCount).sum := by
  have hareas (areas : List Nat) : rects.mapM Rect.area = .ok areas ↔
      (∀ r ∈ rects, r.y0 ≤ r.y1 ∧ r.x0 ≤ r.x1) ∧ areas = rects.map Rect.cellCount := by
    simp only [mapM_eq_ok_iff, Rect.area_eq_ok_iff]
    induction rects generalizing areas with
    | nil => simp
    | cons r rest ih =>
        simp only [List.forall₂_cons_left_iff, ih, List.mem_cons, forall_eq_or_imp, List.map_cons]
        constructor
        · rintro ⟨a, later, ⟨hr, rfl⟩, ⟨hrest, rfl⟩, rfl⟩
          exact ⟨⟨hr, hrest⟩, rfl⟩
        · rintro ⟨⟨hr, hrest⟩, rfl⟩
          exact ⟨_, _, ⟨hr, rfl⟩, ⟨hrest, rfl⟩, rfl⟩
  simp only [totalArea, bind_eq_ok_iff, hareas, Long.sum_eq_ok_iff]
  constructor
  · rintro ⟨areas, ⟨hordered, rfl⟩, hle, rfl⟩
    exact ⟨hordered, hle, rfl⟩
  · rintro ⟨hordered, hle, rfl⟩
    exact ⟨_, ⟨hordered, rfl⟩, hle, rfl⟩

theorem sum_intersections (rects : List Rect) (r : Rect) :
    ((rects.filterMap fun s => s.intersection? r).map Rect.cellCount).sum =
      (rects.map fun s => (s.meet r).cellCount).sum := by
  induction rects with
  | nil => rfl
  | cons s rest ih =>
      rw [List.filterMap_cons, List.map_cons, List.sum_cons, ← ih]
      unfold Rect.intersection?
      by_cases hempty : (s.meet r).isEmpty = true
      · have hzero : (s.meet r).cellCount = 0 := by
          rw [← Rect.card_cover, Finset.card_eq_zero, Finset.eq_empty_iff_forall_notMem]
          intro p hp
          exact Rect.isEmpty_iff.1 hempty _ (Rect.mem_cover.1 hp)
        simp only [hempty, if_true, hzero, Nat.zero_add]
      · simp [hempty]

theorem checkPieces_eq_ok {removed rects : List Rect} (h : checkPieces removed rects = .ok ()) :
    rects.Pairwise Rect.Apart ∧ ∀ r ∈ rects, r.Inhabited ∧
      (removed.map fun s => (s.meet r).cellCount).sum = r.cellCount := by
  induction rects with
  | nil => simp
  | cons r rest ih =>
      rw [checkPieces] at h
      obtain ⟨hfirst, h⟩ := Outcome.guard_eq_ok_iff.1 h
      obtain ⟨covered, hcovered, h⟩ := bind_eq_ok_iff.1 h
      obtain ⟨area, harea, h⟩ := bind_eq_ok_iff.1 h
      obtain ⟨heq, h⟩ := Outcome.guard_eq_ok_iff.1 h
      obtain ⟨hrest, hpieces⟩ := ih h
      rw [Outcome.liftM_eq_ok_iff, coveredArea, totalArea_eq_ok_iff] at hcovered
      rw [Outcome.liftM_eq_ok_iff, Rect.area_eq_ok_iff] at harea
      simp only [Bool.or_eq_true, not_or, Bool.not_eq_true, List.any_eq_false, Rect.isEmpty_eq_false_iff,
        Rect.overlaps_eq_false_iff] at hfirst
      have hsum : (removed.map fun s => (s.meet r).cellCount).sum = r.cellCount := by
        rw [← sum_intersections, ← hcovered.2.2, ← harea.2]
        exact not_not.1 heq
      refine ⟨List.pairwise_cons.2 ⟨hfirst.2, hrest⟩, ?_⟩
      intro s hs
      rcases List.mem_cons.1 hs with rfl | hs
      · exact ⟨hfirst.1, hsum⟩
      · exact hpieces s hs

structure Replaces (t : Tiling) (e : Edit) : Prop where
  nodup : e.removed.Nodup
  present : ∀ id ∈ e.removed, ∃ s ∈ t.segments, s.id = id
  inhabited : ∀ p ∈ e.added, p.rect.Inhabited
  apart : e.added.Pairwise fun p q => p.rect.Apart q.rect
  exact : ∀ c, (∃ p ∈ e.added, c ∈ p.rect) ↔ ∃ s ∈ t.segments, s.id ∈ e.removed ∧ c ∈ s.rect

theorem replaces_of_checkEdit {t : Tiling} {e : Edit}
    (hids : t.segments.Pairwise fun s u => s.id < u.id)
    (hapart : ∀ s ∈ t.segments, ∀ u ∈ t.segments, s.id ≠ u.id → s.rect.Apart u.rect)
    (h : t.checkEdit e = .ok ()) : t.Replaces e := by
  unfold checkEdit at h
  obtain ⟨rects, hremoved, h⟩ := bind_eq_ok_iff.1 h
  obtain ⟨total, htotal, h⟩ := bind_eq_ok_iff.1 h
  obtain ⟨total', htotal', h⟩ := bind_eq_ok_iff.1 h
  obtain ⟨heq, h⟩ := Outcome.guard_eq_ok_iff.1 h
  obtain ⟨hnodup, -, removed, hmap, hpresent, rfl⟩ := removedRects_eq_ok hremoved
  obtain ⟨hpieces, hcovered⟩ := checkPieces_eq_ok h
  rw [Outcome.liftM_eq_ok_iff, totalArea_eq_ok_iff] at htotal htotal'
  have hseparate : (removed.map Segment.rect).Pairwise Rect.Apart := by
    rw [← hmap, List.nodup_iff_pairwise_ne, List.pairwise_map] at hnodup
    rw [List.pairwise_map]
    exact hnodup.imp_of_mem fun hs hu hne => hapart _ (hpresent _ hs) _ (hpresent _ hu) hne
  -- each piece lies in the removed cells, and their numbers are the same
  have hunion : Rect.union (e.added.map Piece.rect) = Rect.union (removed.map Segment.rect) := by
    refine Finset.eq_of_subset_of_card_le ?_ ?_
    · intro p hp
      obtain ⟨r, hr, hmem⟩ := Rect.mem_union.1 hp
      exact Rect.cover_subset_union hseparate (hcovered r hr).2 (Rect.mem_cover.2 hmem)
    · rw [Rect.card_union hseparate, Rect.card_union hpieces, ← htotal.2.2, ← htotal'.2.2]
      exact (not_not.1 heq).le
  refine ⟨hnodup, ?_, ?_, List.pairwise_map.1 hpieces, ?_⟩
  · intro id hid
    rw [← hmap] at hid
    obtain ⟨s, hs, heq⟩ := List.mem_map.1 hid
    exact ⟨s, hpresent s hs, heq⟩
  · intro p hp
    exact (hcovered p.rect (List.mem_map_of_mem hp)).1
  · intro c
    have hcell : (c.y, c.x) ∈ Rect.union (e.added.map Piece.rect) ↔
        (c.y, c.x) ∈ Rect.union (removed.map Segment.rect) := by
      rw [hunion]
    simp only [Rect.mem_union, List.mem_map, exists_exists_and_eq_and] at hcell
    rw [show (⟨c.y, c.x⟩ : Cell) = c from rfl] at hcell
    rw [hcell, ← hmap]
    constructor
    · rintro ⟨s, hs, hc⟩
      exact ⟨s, hpresent s hs, List.mem_map_of_mem hs, hc⟩
    · rintro ⟨s, hs, hid, hc⟩
      obtain ⟨u, hu, heq⟩ := List.mem_map.1 hid
      exact ⟨u, hu, Segment.eq_of_id_eq hids hs (hpresent u hu) heq.symm ▸ hc⟩

end Tiling

end SurfaceFabric
