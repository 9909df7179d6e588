import SurfaceFabric.Proofs.Tiling.Roles

/-!
The free rectangles of a tiling. An edit of free segments gives up their rectangles for those of its free
pieces, and leaves all others as they are. Joining a pair makes one rectangle of two with the same cells.
-/

namespace SurfaceFabric

def Piece.isFree (p : Piece) : Bool := !p.allocated && p.role == .unassigned

/-- Free pieces give back their rectangles. -/
theorem Piece.rects_free (rects : List Rect) :
    ((rects.map Piece.free).filter Piece.isFree).map Piece.rect = rects := by
  rw [List.filter_eq_self.2 (by simp [Piece.isFree, Piece.free]), List.map_map]
  exact List.map_id rects

namespace Tiling

variable {t t' : Tiling} {e : Edit}

def freeRects (t : Tiling) : List Rect := t.freeSegments.map Segment.rect

theorem mem_freeRects {r : Rect} : r ∈ t.freeRects ↔ ∃ s ∈ t.freeSegments, s.rect = r := List.mem_map

theorem freeSegments_perm (t : Tiling) : t.freeSegments.Perm (t.segments.filter Segment.isFree) :=
  sortBy_perm _ _

theorem WellTiled.nodup_freeSegments (h : t.WellTiled) : (t.freeSegments.map Segment.id).Nodup := by
  refine (t.freeSegments_perm.map _).nodup_iff.2 ?_
  rw [List.nodup_iff_pairwise_ne, List.pairwise_map]
  exact (h.ascending.filter _).imp fun hlt => hlt.ne

@[simp] theorem relinked_isFree (t : Tiling) (e : Edit) (s : Segment) :
    (t.relinked e s).isFree = s.isFree := by
  unfold relinked
  split <;> rfl

theorem freeRects_fresh (start : Nat) (pieces : List Piece) :
    ((fresh start pieces).filter Segment.isFree).map Segment.rect =
      (pieces.filter Piece.isFree).map Piece.rect := by
  induction pieces generalizing start with
  | nil => rfl
  | cons p rest ih =>
      have hfirst : (Segment.isolated start p).isFree = p.isFree := rfl
      rw [fresh, List.filter_cons, List.filter_cons, hfirst]
      split
      · rw [List.map_cons, List.map_cons, ih]
        rfl
      · exact ih _

/-- What is free after an edit: what was free and stays, and the free pieces. -/
theorem freeRects_replace (t : Tiling) (e : Edit) (n : Nat) : (t.replace e n).freeRects.Perm
    (((t.freeSegments.filter fun s => s.id ∉ e.removed).map Segment.rect) ++
      (e.added.filter Piece.isFree).map Piece.rect) := by
  refine ((freeSegments_perm _).map _).trans ?_
  rw [replace_segments, List.filter_append, List.map_append, List.filter_map, List.filter_map, List.map_map,
    List.map_map, List.filter_filter]
  have hkept : Segment.rect ∘ t.relinked e = Segment.rect := funext fun s => t.relinked_rect e s
  have hmade : ((fresh t.nextId e.added).filter (Segment.isFree ∘ t.linkedAnew e)).map
      (Segment.rect ∘ t.linkedAnew e) = (e.added.filter Piece.isFree).map Piece.rect :=
    freeRects_fresh t.nextId e.added
  rw [hkept, hmade]
  refine (List.Perm.map _ ?_).append_right _
  refine .trans (.of_eq ?_) (t.freeSegments_perm.filter _).symm
  rw [List.filter_filter]
  refine List.filter_congr fun s _ => ?_
  rw [Function.comp_apply, relinked_isFree, Bool.and_comm]

/-- An edit of free segments gives up their rectangles for those of its free pieces. -/
theorem WellTiled.freeRects_commit (h : t.WellTiled) (gone : List Segment) {ids : List Nat}
    (hgone : gone.map Segment.id = e.removed) (hfree : ∀ s ∈ gone, s ∈ t.freeSegments)
    (hcommit : t.commit e = .ok (ids, t')) : (gone.map Segment.rect ++ t'.freeRects).Perm
      ((e.added.filter Piece.isFree).map Piece.rect ++ t.freeRects) := by
  obtain ⟨hcheck, -, -, rfl⟩ := commit_eq_ok_iff.1 hcommit
  have hnodup := (replaces_of_checkEdit h.ascending h.apart hcheck).nodup
  rw [← hgone] at hnodup
  have hremoved : (t.freeSegments.filter fun s => s.id ∈ e.removed).Perm gone := by
    rw [List.perm_ext_iff_of_nodup (h.nodup_freeSegments.of_map.filter _) hnodup.of_map]
    intro s
    rw [List.mem_filter, decide_eq_true_eq, ← hgone]
    refine ⟨fun ⟨hs, hid⟩ => ?_, fun hs => ⟨hfree s hs, List.mem_map_of_mem hs⟩⟩
    obtain ⟨u, hu, hid⟩ := List.mem_map.1 hid
    rwa [← h.eq_of_id_eq (mem_freeSegments.1 (hfree u hu)).1 (mem_freeSegments.1 hs).1 hid]
  have hsplit : (gone ++ t.freeSegments.filter fun s => s.id ∉ e.removed).Perm t.freeSegments := by
    refine (hremoved.symm.append_right _).trans ?_
    simpa using List.filter_append_perm (fun s => decide (s.id ∈ e.removed)) t.freeSegments
  refine ((t.freeRects_replace e _).append_left _).trans ?_
  rw [← List.append_assoc, ← List.map_append]
  exact ((hsplit.map _).append_right _).trans List.perm_append_comm

/-- Joining a pair makes one free rectangle of two. -/
theorem WellTiled.freeRects_mergePair (h : t.WellTiled) {join? : Rect → Rect → Option Rect} {a b n : Nat}
    (hmerge : t.mergePair join? a b = .ok (some (n, t'))) : ∃ r ∈ t.freeRects, ∃ s ∈ t.freeRects, ∃ merged,
      join? r s = some merged ∧ merged.Tiles [r, s] ∧ (r :: s :: t'.freeRects).Perm (merged :: t.freeRects) := by
  obtain ⟨_, _, merged, hpair, hjoin, hmerge⟩ := mergePair_eq_some hmerge
  obtain ⟨later, hcommit⟩ := mergeInto_eq_some hmerge
  simp only [freePair?, Option.bind_eq_bind, Option.bind_eq_some_iff] at hpair
  obtain ⟨u, hu, v, hv, hpair⟩ := hpair
  obtain ⟨⟨hne, hfreeu, hfreev⟩, heq⟩ := Option.ite_none_right_eq_some.1 hpair
  obtain ⟨rfl, rfl⟩ := Prod.mk.inj (Option.some.inj heq)
  obtain ⟨hmemu, rfl⟩ := mem_of_segment? hu
  obtain ⟨hmemv, rfl⟩ := mem_of_segment? hv
  have hu : u ∈ t.freeSegments := mem_freeSegments.2 ⟨hmemu, hfreeu⟩
  have hv : v ∈ t.freeSegments := mem_freeSegments.2 ⟨hmemv, hfreev⟩
  refine ⟨u.rect, List.mem_map_of_mem hu, v.rect, List.mem_map_of_mem hv, merged, hjoin, ⟨?_, fun c => ?_⟩, ?_⟩
  · rw [List.pairwise_pair]
    exact h.apart u hmemu v hmemv hne
  · have hexact := (h.recast hcommit).exact c
    simp only [List.map_cons, List.map_nil, List.mem_cons, List.not_mem_nil, or_false, exists_eq_left] at hexact ⊢
    refine hexact.trans ⟨?_, ?_⟩
    · rintro ⟨w, hw, hid | hid, hc⟩
      · exact ⟨_, .inl rfl, h.eq_of_id_eq hw hmemu hid ▸ hc⟩
      · exact ⟨_, .inr rfl, h.eq_of_id_eq hw hmemv hid ▸ hc⟩
    · rintro ⟨r, rfl | rfl, hc⟩
      · exact ⟨u, hmemu, .inl rfl, hc⟩
      · exact ⟨v, hmemv, .inr rfl, hc⟩
  · exact h.freeRects_commit [u, v] rfl (by simp [hu, hv]) hcommit

inductive Join (t : Tiling) : Tiling → Prop
  | vertical {a b n : Nat} {t' : Tiling} : t.mergeVertical a b = .ok (some (n, t')) → Join t t'
  | horizontal {a b n : Nat} {t' : Tiling} : t.mergeHorizontal a b = .ok (some (n, t')) → Join t t'

theorem joins_of_mergeAligned {links : Segment → List Nat} {join? : Rect → Rect → Option Rect}
    {limit count : Nat} (hjoin : ∀ {u v a b n}, u.mergePair join? a b = .ok (some (n, v)) → Join u v)
    (hmerge : mergeAligned links join? limit t = .ok (count, t')) : Relation.ReflTransGen Join t t' := by
  refine Relation.ReflTransGen.mono ?_ t t' (mergePairs_of_mergeAligned hmerge)
  rintro u v ⟨a, b, n, hpair⟩
  exact hjoin hpair

theorem joins_of_mergeFree (hmerge : t.mergeFree = .ok t') : Relation.ReflTransGen Join t t' := by
  obtain ⟨⟨n, u⟩, hcolumns, hmerge⟩ := bind_eq_ok_iff.1 hmerge
  obtain ⟨⟨m, v⟩, hrows, hmerge⟩ := bind_eq_ok_iff.1 hmerge
  cases hmerge
  exact (joins_of_mergeAligned .vertical hcolumns).trans (joins_of_mergeAligned .horizontal hrows)

theorem WellTiled.join (h : t.WellTiled) (hjoin : Join t t') : t'.WellTiled := by
  have hregroups : Regroups t t' := by
    cases hjoin with
    | vertical hmerge => exact h.mergePair hmerge
    | horizontal hmerge => exact h.mergePair hmerge
  exact h.changes (Regrouped.changes (.single hregroups))

/-- Allocating a box in a free segment leaves what is around it. -/
theorem WellTiled.freeRects_allocAt (h : t.WellTiled) {s : Segment} {n : Nat} {b : Box} {role : Role}
    (hs : s ∈ t.freeSegments) (halloc : t.allocAt s.id b role = .ok (some (n, t'))) :
    (s.rect :: t'.freeRects).Perm (s.rect.remainder b.rect ++ t.freeRects) := by
  obtain ⟨e, later, hsplit, hcommit⟩ := allocAt_eq_some halloc
  obtain ⟨u, inner, hu, -, hinner, -, rfl⟩ := splitEdit_eq_ok hsplit
  obtain rfl := Rect.ofBox_eq_ok hinner
  obtain ⟨hmem, hfree⟩ := mem_freeSegments.1 hs
  obtain rfl := h.eq_of_id_eq (mem_of_segment? hu).1 hmem (mem_of_segment? hu).2
  have hperm := h.freeRects_commit [u] rfl (by simpa using hs) hcommit
  rw [role_of_isFree hfree] at hperm
  have hrest := Piece.rects_free (u.rect.remainder b.rect)
  exact hrest ▸ hperm

end Tiling

end SurfaceFabric
