import SurfaceFabric.Proofs.Tiling.Exact
import SurfaceFabric.Proofs.Tiling.Frame
import SurfaceFabric.Proofs.Tiling.FreeSpace

/-!
Edits that are always accepted. On a grid with sides in the word an edit is made if its pieces tile what it
removes, unless the segment numbers run out. A box that lies in an unallocated segment is such an edit together
with what it leaves of the segment.
-/

namespace SurfaceFabric.Tiling

variable {t t' : Tiling} {e : Edit}

structure WordTiled (t : Tiling) : Prop extends WellTiled t where
  height_le : t.height ≤ Word.top
  width_le : t.width ≤ Word.top

theorem WordTiled.changes (h : t.WordTiled) (hchanges : Changes t t') : t'.WordTiled :=
  ⟨h.toWellTiled.changes hchanges, hchanges.grid_eq.1 ▸ h.height_le, hchanges.grid_eq.2 ▸ h.width_le⟩

/-- A grid with a segment has sides in the word if its cells can be counted in one. -/
theorem WellTiled.segments_eq_nil_or_wordTiled (h : t.WellTiled) (hword : t.InWord) :
    t.segments = [] ∨ t.WordTiled := by
  cases hsegments : t.segments with
  | nil => exact .inl rfl
  | cons s rest =>
      have hs : s ∈ t.segments := hsegments ▸ List.mem_cons_self
      obtain ⟨hy, hx⟩ := h.inhabited s hs
      obtain ⟨hheight, hwidth⟩ := h.bounds hs
      refine .inr ⟨h, le_trans ?_ hword, le_trans ?_ hword⟩
      · exact Nat.le_mul_of_pos_right _ (by omega)
      · exact Nat.le_mul_of_pos_left _ (by omega)

theorem wordTiled_ofSize {height width : Nat} (hheight : height ≤ Word.top) (hwidth : width ≤ Word.top) :
    (ofSize height width).WordTiled := by
  obtain ⟨hheight', hwidth'⟩ := Changes.size_eq (.refl (a := ofSize height width))
  exact ⟨wellTiled_ofSize height width, hheight'.trans_le hheight, hwidth'.trans_le hwidth⟩

theorem ofSize_of_pos {height width : Nat} (hheight : 0 < height) (hwidth : 0 < width) :
    ofSize height width = ⟨height, width, [.isolated 0 (.free ⟨0, 0, height, width⟩)], 1⟩ :=
  if_pos ⟨hheight, hwidth⟩

theorem wordTiled_of_performAll {height width : Nat} {ops : List Operation} (hheight : height ≤ Word.top)
    (hwidth : width ≤ Word.top) (hreach : (ofSize height width).performAll ops = .ok t) : t.WordTiled :=
  (wordTiled_ofSize hheight hwidth).changes (changes_of_performAll hreach)

theorem WordTiled.area_le (h : t.WordTiled) : t.height * t.width ≤ Long.top :=
  (Nat.mul_le_mul h.height_le h.width_le).trans (by decide)

/-- Pieces that tile what they replace have no more cells than the grid. -/
theorem WordTiled.measured (h : t.WordTiled) (he : t.Replaces e) : Measured e.added := by
  refine ⟨fun p hp => ⟨(he.inhabited p hp).1.le, (he.inhabited p hp).2.le⟩, le_trans ?_ h.area_le⟩
  have hle := Rect.sum_cellCount_le (r := t.grid) (List.pairwise_map.2 he.apart)
    (List.forall_mem_map.2 fun p hp c hc => ?_)
  · simpa [Rect.cellCount, grid] using hle
  · obtain ⟨s, hs, -, hcs⟩ := (he.exact c).1 ⟨p, hp, hc⟩
    exact h.bounded s hs c hcs

theorem WordTiled.commit_eq (h : t.WordTiled) (he : t.Replaces e) : t.commit e =
    if t.nextId + e.added.length ≤ Word.top then
      .ok ((fresh t.nextId e.added).map Segment.id, t.replace e (t.nextId + e.added.length))
    else .error (.fault .idsExhausted) := by
  rcases h.toWellTiled.commit_cases h.area_le (h.measured he) with
    ⟨-, hids, ids, t', hmade⟩ | ⟨-, hids, hfault⟩ | ⟨hnot, -⟩
  · obtain ⟨-, -, rfl, rfl⟩ := commit_eq_ok_iff.1 hmade
    rw [hmade, if_pos hids]
  · rw [hfault, if_neg (Nat.not_le.2 hids)]
  · exact absurd he hnot

theorem WordTiled.mergeInto_eq (h : t.WordTiled) {removed : List Nat} {merged : Rect} {leftovers : List Rect}
    (he : t.Replaces ⟨removed, (merged :: leftovers).map Piece.free⟩) : t.mergeInto removed merged leftovers =
      if t.nextId + (leftovers.length + 1) ≤ Word.top then
        .ok (some (t.nextId, t.replace ⟨removed, (merged :: leftovers).map Piece.free⟩
          (t.nextId + (leftovers.length + 1))))
      else .error .idsExhausted := by
  have hlength : ((merged :: leftovers).map Piece.free).length = leftovers.length + 1 := by simp
  rw [mergeInto, h.commit_eq he, hlength]
  split <;> rfl

/-- A segment after an edit is one that stays, with other links, or is made of a piece. -/
theorem mem_replace_cases {n : Nat} {v : Segment} (hv : v ∈ (t.replace e n).segments) :
    (∃ s ∈ t.segments, s.id ∉ e.removed ∧ s.Alike v) ∨
      ∃ p ∈ e.added, t.nextId ≤ v.id ∧ v.rect = p.rect ∧ v.isFree = p.isFree := by
  rcases mem_replace.1 hv with ⟨s, hs, hkept, rfl⟩ | ⟨w, hw, rfl⟩
  · exact .inl ⟨s, hs, hkept, alike_relinked t e s⟩
  · obtain ⟨hle, -, p, hp, heq⟩ := mem_fresh hw
    refine .inr ⟨p, hp, hle, ?_, ?_⟩
    · rw [linkedAnew_rect, heq]
      rfl
    · rw [heq]
      rfl

/-- An edit of the only segment leaves its pieces. -/
theorem mem_replace_single {s v : Segment} {added : List Piece} {n : Nat} (hone : t.segments = [s])
    (hv : v ∈ (t.replace ⟨[s.id], added⟩ n).segments) : ∃ p ∈ added, v.rect = p.rect ∧ v.isFree = p.isFree := by
  rcases mem_replace_cases hv with ⟨x, hx, hkept, -⟩ | ⟨p, hp, -, hpiece⟩
  · rw [hone, List.mem_singleton] at hx
    exact absurd (List.mem_singleton.2 (congrArg Segment.id hx)) hkept
  · exact ⟨p, hp, hpiece⟩

/-- How many segments there are after an exact edit. -/
theorem Replaces.length_replace (he : t.Replaces e) (h : t.WellTiled) (n : Nat) :
    (t.replace e n).segments.length + e.removed.length = t.segments.length + e.added.length := by
  have hgone : ((t.segments.filter fun s => s.id ∈ e.removed).map Segment.id).Perm e.removed := by
    have hnodup : ((t.segments.filter fun s => s.id ∈ e.removed).map Segment.id).Nodup :=
      List.pairwise_map.2 ((h.ascending.filter _).imp fun hlt => hlt.ne)
    refine (List.perm_ext_iff_of_nodup hnodup he.nodup).2 fun id => ?_
    simp only [List.mem_map, List.mem_filter, decide_eq_true_eq]
    constructor
    · rintro ⟨s, ⟨-, hid⟩, rfl⟩
      exact hid
    · intro hid
      obtain ⟨s, hs, rfl⟩ := he.present id hid
      exact ⟨s, ⟨hs, hid⟩, rfl⟩
  have hsplit := (List.filter_append_perm (fun s => decide (s.id ∈ e.removed)) t.segments).length_eq
  have hlength := hgone.length_eq
  rw [List.length_map] at hlength
  simp only [List.length_append, ← decide_not] at hsplit
  rw [replace_segments, List.length_append, List.length_map, List.length_map, fresh_length]
  omega

/-! ### Cutting a box out of a segment -/

theorem length_remainder_le (r inner : Rect) : (r.remainder inner).length ≤ 4 := List.length_filter_le ..

section Cut

variable {s : Segment} {b : Box} (h : t.WordTiled) (hs : s ∈ t.segments) (hfree : s.allocated = false)
  (hbox : b.rect.Inhabited) (hincludes : s.rect.includes b.rect = true)

include h hs hbox hincludes

theorem WordTiled.replaces_cut (first : Piece) (hfirst : first.rect = b.rect) (role : Role) :
    t.Replaces ⟨[s.id], first :: (s.rect.remainder b.rect).map fun r => ⟨r, role, false⟩⟩ := by
  refine h.replaces_single hs ?_ ?_
  · rw [List.map_cons, hfirst, List.map_map]
    simpa [Function.comp_def] using Rect.tiles_remainder hbox hincludes
  · simp only [List.forall_mem_cons, List.forall_mem_map, hfirst]
    exact ⟨hbox, fun r hr => Rect.inhabited_of_remainder hr⟩

include hfree

theorem WordTiled.splitEdit_eq : t.splitEdit s.id b =
    .ok ⟨[s.id], (b.rect :: s.rect.remainder b.rect).map fun r => ⟨r, s.role, false⟩⟩ := by
  have hbounds := h.bounds hs
  have hheight := h.height_le
  have hwidth := h.width_le
  have hedges := hincludes
  simp only [Rect.includes, Bool.and_eq_true, decide_eq_true_eq] at hedges
  have hrect : Rect.ofBox b = .ok b.rect := by
    rw [Rect.ofBox, Word.add_eq_ok_iff.2 ⟨?_, rfl⟩, Word.add_eq_ok_iff.2 ⟨?_, rfl⟩]
    · rfl
    · exact (hedges.2.trans hbounds.2).trans hwidth
    · exact (hedges.1.1.2.trans hbounds.1).trans hheight
  rw [splitEdit, segment, (segment?_eq_some_iff h.ascending).2 ⟨hs, rfl⟩]
  refine bind_eq_ok_iff.2 ⟨s, rfl, Outcome.guard_eq_ok_iff.2 ⟨by simp [hfree], ?_⟩⟩
  refine bind_eq_ok_iff.2 ⟨_, Outcome.liftM_eq_ok_iff.2 hrect, Outcome.guard_eq_ok_iff.2 ⟨?_, rfl⟩⟩
  rw [Rect.isEmpty_eq_false_iff.2 hbox, hincludes]
  decide

theorem WordTiled.split_eq : t.split s.id b =
    if t.nextId + ((s.rect.remainder b.rect).length + 1) ≤ Word.top then
      .ok ((fresh t.nextId ((b.rect :: s.rect.remainder b.rect).map fun r => ⟨r, s.role, false⟩)).map Segment.id,
        t.replace ⟨[s.id], (b.rect :: s.rect.remainder b.rect).map fun r => ⟨r, s.role, false⟩⟩
          (t.nextId + ((s.rect.remainder b.rect).length + 1)))
    else .error (.fault .idsExhausted) := by
  have he := h.replaces_cut hs hbox hincludes ⟨b.rect, s.role, false⟩ rfl s.role
  rw [split, h.splitEdit_eq hs hfree hbox hincludes]
  refine (h.commit_eq he).trans ?_
  simp only [List.length_cons, List.length_map]
  rfl

/-- A box inside a segment that is not taken is allocated, if there are numbers for it and for what is left. -/
theorem WordTiled.allocAt_eq (role : Role) : t.allocAt s.id b role =
    if t.nextId + ((s.rect.remainder b.rect).length + 1) ≤ Word.top then
      .ok (some (t.nextId, t.replace
        ⟨[s.id], ⟨b.rect, role, true⟩ :: (s.rect.remainder b.rect).map fun r => ⟨r, s.role, false⟩⟩
          (t.nextId + ((s.rect.remainder b.rect).length + 1))))
    else .error .idsExhausted := by
  obtain ⟨hy, hx⟩ := h.inhabited s hs
  have hedges := hincludes
  simp only [Rect.includes, Bool.and_eq_true, decide_eq_true_eq] at hedges
  simp only [Box.rect] at hedges
  have he := h.replaces_cut hs hbox hincludes ⟨b.rect, role, true⟩ rfl s.role
  have hcommit := h.commit_eq he
  simp only [List.length_cons, List.length_map] at hcommit
  unfold Tiling.allocAt
  rw [(segment?_eq_some_iff h.ascending).2 ⟨hs, rfl⟩]
  dsimp only
  rw [if_neg (by simp [hfree]), Rect.height_eq_ok hy.le, Rect.width_eq_ok hx.le,
    h.splitEdit_eq hs hfree hbox hincludes]
  show (if s.rect.y1 - s.rect.y0 < b.h then _ else if s.rect.x1 - s.rect.x0 < b.w then _ else
    (t.commit ⟨[s.id], ⟨b.rect, role, true⟩ :: (s.rect.remainder b.rect).map fun r => ⟨r, s.role, false⟩⟩).toOption
      >>= _) = _
  rw [if_neg (by omega), if_neg (by omega), hcommit]
  split <;> rfl

end Cut

end SurfaceFabric.Tiling
