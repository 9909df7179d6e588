import SurfaceFabric.Proofs.Tiling.Join

/-!
Joining pairs over a whole grid. The search for a pair looks only at segments with a single neighbour on a side,
and misses none: what can be joined to a segment is its only neighbour there. So a run of joins ends at a tiling
without a pair, or has made as many joins as it may; it makes one segment fewer each time. A row of cells that is
one longer than that is left in two pieces.
-/

namespace SurfaceFabric.Tiling

variable {t t' u : Tiling} {side : Side} {join? : Rect → Rect → Option Rect} {links : Segment → List Nat}

/-! ### Runs of joins -/

/-- What a number of joins on a side makes of a tiling: every segment is in a band that was there before. -/
structure Fused (side : Side) (count : Nat) (t t' : Tiling) : Prop where
  wordTiled : t'.WordTiled
  grid : t'.grid = t.grid
  length : t'.segments.length + count = t.segments.length
  nextId : t'.nextId = t.nextId + count
  free : (∀ s ∈ t.segments, s.isFree = true) → ∀ s ∈ t'.segments, s.isFree = true
  band : ∀ v ∈ t'.segments, ∃ s ∈ t.segments, s.rect.band side = v.rect.band side

namespace Fused

theorem refl (h : t.WordTiled) : Fused side 0 t t :=
  ⟨h, rfl, rfl, rfl, id, fun v hv => ⟨v, hv, rfl⟩⟩

theorem trans {m n : Nat} (h : Fused side m t u) (h' : Fused side n u t') : Fused side (n + m) t t' := by
  refine ⟨h'.wordTiled, h'.grid.trans h.grid, ?_, ?_, fun hfree => h'.free (h.free hfree), fun v hv => ?_⟩
  · rw [← h.length, ← h'.length, Nat.add_assoc]
  · rw [h'.nextId, h.nextId, Nat.add_assoc, Nat.add_comm m]
  · obtain ⟨w, hw, hband⟩ := h'.band v hv
    obtain ⟨s, hs, hband'⟩ := h.band w hw
    exact ⟨s, hs, hband'.trans hband⟩

end Fused

theorem WordTiled.fused_pair (h : t.WordTiled) {s v : Segment} (hs : s ∈ t.segments) (hv : v ∈ t.segments)
    (habuts : s.rect.Abuts side v.rect ∨ v.rect.Abuts side s.rect) (hids : t.nextId + 1 ≤ Word.top) :
    Fused side 1 t (t.replace ⟨[s.id, v.id], [.free (s.rect.hull v.rect)]⟩ (t.nextId + 1)) := by
  have he := h.replaces_pair hs hv habuts
  have hcommit := (h.commit_eq he).trans (if_pos hids)
  refine ⟨h.changes (.single (.commit hcommit)), rfl, ?_, rfl, fun hfree w hw => ?_, fun w hw => ?_⟩
  · have hlength := he.length_replace h.toWellTiled (t.nextId + 1)
    simp only [List.length_cons, List.length_nil] at hlength
    omega
  · rcases mem_replace_cases hw with ⟨x, hx, -, halike⟩ | ⟨p, hp, -, -, hfree'⟩
    · rw [halike.isFree, hfree x hx]
    · obtain rfl := List.mem_singleton.1 hp
      exact hfree'
  · rcases mem_replace_cases hw with ⟨x, hx, -, halike⟩ | ⟨p, hp, -, hrect, -⟩
    · exact ⟨x, hx, by rw [halike.rect]⟩
    · obtain rfl := List.mem_singleton.1 hp
      rw [hrect]
      rcases habuts with habuts | habuts
      · exact ⟨s, hs, habuts.band_hull.symm⟩
      · exact ⟨v, hv, by rw [Piece.free, Rect.hull_comm, habuts.band_hull]⟩

/-! ### The search for a pair -/

theorem WellTiled.partner?_eq_some (h : t.WellTiled) (hlinks : ∀ s, links s = s.neighbours side)
    (hjoin : JoinsOn side join?) {s v : Segment} (hs : s ∈ t.segments) (hv : v ∈ t.segments)
    (hsfree : s.isFree = true) (hvfree : v.isFree = true) (habuts : s.rect.Abuts side v.rect) :
    t.partner? links join? s = some (s.id, v.id) := by
  have honly : links s = [v.id] := (hlinks s).trans (h.neighbours_of_abuts hs hv habuts)
  have hjoined := hjoin.joined _ _ (h.inhabited s hs) (h.inhabited v hv) (.inl habuts)
  unfold partner?
  rw [hsfree, honly]
  simp [(segment?_eq_some_iff h.ascending).2 ⟨hv, rfl⟩, hvfree, hjoined]

/-- What the search finds can be joined. -/
theorem WellTiled.joinable_of_partner? (h : t.WellTiled) (hjoin : JoinsOn side join?) {s : Segment} {a b : Nat}
    (hs : s ∈ t.segments) (hfound : t.partner? links join? s = some (a, b)) : t.Joinable side a b := by
  unfold partner? at hfound
  split at hfound
  · next n hfree _ =>
      simp only [Option.bind_eq_bind, Option.bind_eq_some_iff, segment?_eq_some_iff h.ascending,
        Option.ite_none_right_eq_some, Option.some.injEq, Prod.mk.injEq] at hfound
      obtain ⟨v, ⟨hv, hid⟩, ⟨hvfree, hjoined⟩, hsid, rfl⟩ := hfound
      refine ⟨s, hs, v, hv, ⟨hsid, hid⟩, ⟨hfree, hvfree⟩, ?_⟩
      by_contra hnot
      rw [hjoin.refused _ _ hnot] at hjoined
      cases hjoined
  · cases hfound

/-- The search misses no pair. -/
theorem WellTiled.not_joinable_of_findSome? (h : t.WellTiled) (hlinks : ∀ s, links s = s.neighbours side)
    (hjoin : JoinsOn side join?) (hnone : t.segments.findSome? (t.partner? links join?) = none) (a b : Nat) :
    ¬t.Joinable side a b := by
  rintro ⟨s, hs, v, hv, -, ⟨hsfree, hvfree⟩, habuts⟩
  rw [List.findSome?_eq_none_iff] at hnone
  rcases habuts with habuts | habuts
  · have hfound := h.partner?_eq_some hlinks hjoin hs hv hsfree hvfree habuts
    rw [hnone s hs] at hfound
    cases hfound
  · have hfound := h.partner?_eq_some hlinks hjoin hv hs hvfree hsfree habuts
    rw [hnone v hv] at hfound
    cases hfound

/-- A run of joins ends without a pair or at its limit, unless the segment numbers run out. -/
theorem WordTiled.mergeAligned_cases (h : t.WordTiled) (hlinks : ∀ s, links s = s.neighbours side)
    (hjoin : JoinsOn side join?) (limit : Nat) :
    (∃ count t', mergeAligned links join? limit t = .ok (count, t') ∧ count ≤ limit ∧ Fused side count t t' ∧
      (count = limit ∨ ∀ a b, ¬t'.Joinable side a b)) ∨
    (mergeAligned links join? limit t = .error .idsExhausted ∧ Word.top < t.nextId + limit) := by
  induction limit generalizing t with
  | zero => exact .inl ⟨0, t, rfl, le_rfl, .refl h, .inl rfl⟩
  | succ limit ih =>
      rw [mergeAligned]
      cases hfound : t.segments.findSome? (t.partner? links join?) with
      | none =>
          have hstuck := h.not_joinable_of_findSome? hlinks hjoin hfound
          exact .inl ⟨0, t, rfl, Nat.zero_le _, .refl h, .inr hstuck⟩
      | some pair =>
          obtain ⟨a, b⟩ := pair
          obtain ⟨s, hs, hpartner⟩ := List.exists_of_findSome?_eq_some hfound
          obtain ⟨s, hs, v, hv, ⟨rfl, rfl⟩, ⟨hsfree, hvfree⟩, habuts⟩ := h.joinable_of_partner? hjoin hs hpartner
          have hmerge := h.mergePair_eq hjoin hs hv hsfree hvfree habuts
          dsimp only
          by_cases hids : t.nextId + 1 ≤ Word.top
          · rw [hmerge.trans (if_pos hids)]
            have hfirst := h.fused_pair hs hv habuts hids
            rcases ih hfirst.wordTiled with ⟨count, t', hrest, hle, hfused, hend⟩ | ⟨hrest, hlt⟩
            · refine .inl ⟨count + 1, t', ?_, Nat.succ_le_succ hle, hfirst.trans hfused, ?_⟩
              · exact bind_eq_ok_iff.2 ⟨_, rfl, bind_eq_ok_iff.2 ⟨_, hrest, rfl⟩⟩
              · exact hend.imp_left (congrArg (· + 1))
            · rw [hfirst.nextId] at hlt
              refine .inr ⟨?_, by omega⟩
              show (mergeAligned links join? limit _ >>= _) = _
              rw [hrest]
              rfl
          · rw [hmerge.trans (if_neg hids)]
            exact .inr ⟨rfl, by omega⟩

theorem WellTiled.failsOnly_mergeAligned (h : t.WellTiled) (hlinks : ∀ s, links s = s.neighbours side)
    (hjoin : JoinsOn side join?) {limit : Nat} {B : Prop} (hB : B → t.InWord) :
    FailsOnly (Fault.Allowed B) (Tiling.mergeAligned links join? limit t) := by
  intro f hf hb
  rcases h.segments_eq_nil_or_wordTiled (hB hb) with hnil | hword
  · have hresult : Tiling.mergeAligned links join? limit t = .ok (0, t) := by
      cases limit with
      | zero => rfl
      | succ limit =>
          rw [Tiling.mergeAligned, hnil]
          rfl
    rw [hresult] at hf
    cases hf
  · rcases hword.mergeAligned_cases hlinks hjoin limit with ⟨_, _, hresult, -⟩ | ⟨hresult, -⟩
    · rw [hresult] at hf
      cases hf
    · rw [hresult] at hf
      cases hf
      rfl

theorem WellTiled.failsOnly_mergeFree (h : t.WellTiled) {B : Prop} (hB : B → t.InWord) :
    FailsOnly (Fault.Allowed B) t.mergeFree := by
  refine (h.failsOnly_mergeAligned (fun _ => rfl) joinsOn_stacked hB).bind fun joined hcolumns => ?_
  have hchanges := (h.mergeAligned hcolumns).changes
  exact ((h.changes hchanges).failsOnly_mergeAligned (fun _ => rfl) joinsOn_besides
    fun hb => (hB hb).changes hchanges).bind fun _ _ => .pure _

/-- What comes of joining all pairs of a grid: the count is that of the segments that are gone, and no pair is left
unless the count is at its limit. At the limit none is left either if there were few enough segments. -/
structure MergeSettled (t : Tiling) (pair : Tiling → Nat → Nat → Checked (Option (Nat × Tiling)))
    (result : Checked (Nat × Tiling)) : Prop where
  returned : (∃ count t', result = .ok (count, t')) ∨
    (result = .error .idsExhausted ∧ Word.top < t.nextId + mergeLimit)
  counted : ∀ count t', result = .ok (count, t') →
    count ≤ mergeLimit ∧ t'.segments.length + count = t.segments.length
  fixed : ∀ count t', result = .ok (count, t') → count < mergeLimit ∨ t.segments.length ≤ mergeLimit + 1 →
    ∀ a b, pair t' a b = .ok none

theorem WordTiled.mergeSettled (h : t.WordTiled) (hlinks : ∀ s, links s = s.neighbours side)
    (hjoin : JoinsOn side join?) :
    t.MergeSettled (fun u => u.mergePair join?) (mergeAligned links join? mergeLimit t) := by
  rcases h.mergeAligned_cases hlinks hjoin mergeLimit with ⟨n, u, hresult, hle, hfused, hend⟩ | ⟨hresult, hlt⟩
  · have hof {count : Nat} {t' : Tiling} (heq : mergeAligned links join? mergeLimit t = .ok (count, t')) :
        n = count ∧ u = t' := Prod.mk.inj (Except.ok.inj (hresult.symm.trans heq))
    refine ⟨.inl ⟨n, u, hresult⟩, fun count t' heq => ?_, fun count t' heq hfew a b => ?_⟩
    · obtain ⟨rfl, rfl⟩ := hof heq
      exact ⟨hle, hfused.length⟩
    · obtain ⟨rfl, rfl⟩ := hof heq
      have hwell := hfused.wordTiled.toWellTiled
      refine hwell.mergePair_of_not_joinable hjoin ?_
      rcases hend with rfl | hstuck
      · -- at most one segment is left
        rintro ⟨s, hs, v, hv, -, -, habuts⟩
        have hne : s ≠ v := fun heq => hwell.ne_of_abuts hs hv habuts (congrArg Segment.id heq)
        have hnodup : [s, v].Nodup := by simpa using hne
        have htwo : 2 ≤ u.segments.length := (hnodup.subperm (by simp [hs, hv])).length_le
        have hlength := hfused.length
        omega
      · exact hstuck a b
  · refine ⟨.inr ⟨hresult, hlt⟩, ?_, ?_⟩ <;>
      · intro count t' heq
        rw [hresult] at heq
        cases heq

/-! ### Bands -/

/-- Segments in bands: two that have a row in common, or a column as seen from above and below, have all of them in
common. -/
def Banded (t : Tiling) (side : Side) : Prop :=
  ∀ s ∈ t.segments, ∀ v ∈ t.segments,
    max (s.rect.band side).1 (v.rect.band side).1 < min (s.rect.band side).2 (v.rect.band side).2 →
      s.rect.band side = v.rect.band side

theorem Banded.fused {count : Nat} (h : t.Banded side) (hfused : Fused side count t t') : t'.Banded side := by
  intro v hv w hw hmeet
  obtain ⟨s, hs, hsv⟩ := hfused.band v hv
  obtain ⟨x, hx, hxw⟩ := hfused.band w hw
  rw [← hsv, ← hxw] at hmeet ⊢
  exact h s hs x hx hmeet

theorem Banded.opposite (h : t.Banded side) : t.Banded side.opposite := by
  simpa only [Banded, Rect.band_opposite] using h

theorem Joinable.of_opposite {a b : Nat} (h : t.Joinable side.opposite a b) : t.Joinable side a b := by
  obtain ⟨s, hs, v, hv, hids, hfree, habuts⟩ := h
  refine ⟨s, hs, v, hv, hids, hfree, habuts.symm.imp ?_ ?_⟩ <;>
    exact fun h => by simpa using h.symm

/-- A rectangle that does not reach the edge of a grid it lies in has a cell of the grid beyond it. -/
theorem exists_beyond {r g : Rect} (hr : r.Inhabited) (hinside : ∀ c ∈ r, c ∈ g) (hedge : r.edge side ≠ g.edge side) :
    ∃ c ∈ r, ∃ d ∈ g, d ∉ r ∧ c.NextTo side d := by
  have hfirst := hinside ⟨r.y0, r.x0⟩
  have hlast := hinside ⟨r.y1 - 1, r.x1 - 1⟩
  simp only [Rect.Inhabited, Rect.mem_iff] at hr hfirst hlast
  cases side with
  | above =>
      change r.y0 ≠ g.y0 at hedge
      refine ⟨⟨r.y0, r.x0⟩, ?_, ⟨r.y0 - 1, r.x0⟩, ?_, ?_, ?_⟩ <;>
        simp only [Rect.mem_iff, Cell.NextTo, and_true] <;> omega
  | below =>
      change r.y1 ≠ g.y1 at hedge
      refine ⟨⟨r.y1 - 1, r.x0⟩, ?_, ⟨r.y1, r.x0⟩, ?_, ?_, ?_⟩ <;>
        simp only [Rect.mem_iff, Cell.NextTo, and_true] <;> omega
  | left =>
      change r.x0 ≠ g.x0 at hedge
      refine ⟨⟨r.y0, r.x0⟩, ?_, ⟨r.y0, r.x0 - 1⟩, ?_, ?_, ?_⟩ <;>
        simp only [Rect.mem_iff, Cell.NextTo, true_and] <;> omega
  | right =>
      change r.x1 ≠ g.x1 at hedge
      refine ⟨⟨r.y0, r.x1 - 1⟩, ?_, ⟨r.y0, r.x1⟩, ?_, ?_, ?_⟩ <;>
        simp only [Rect.mem_iff, Cell.NextTo, true_and] <;> omega

/-- Where no two free segments of a band can be joined, each fills its band up to the edge of the grid. -/
theorem WellTiled.edge_eq (h : t.WellTiled) (hfree : ∀ s ∈ t.segments, s.isFree = true) (hbanded : t.Banded side)
    (hstuck : ∀ a b, ¬t.Joinable side a b) {s : Segment} (hs : s ∈ t.segments) :
    s.rect.edge side = t.grid.edge side := by
  by_contra hedge
  obtain ⟨c, hc, d, hd, hout, hnext⟩ := exists_beyond (h.inhabited s hs) (h.bounded s hs) hedge
  obtain ⟨v, hv, hdv⟩ := h.covered d hd
  have hne : s.id ≠ v.id := fun hid => hout (h.eq_of_id_eq hs hv hid ▸ hdv)
  have hcv : c ∉ v.rect := h.apart s hs v hv hne c hc
  have hband : s.rect.band side = v.rect.band side := by
    refine hbanded s hs v hv ?_
    rw [Rect.mem_iff] at hc hdv
    cases side <;> simp only [Rect.band, Cell.NextTo] at hnext ⊢ <;> omega
  refine hstuck s.id v.id ⟨s, hs, v, hv, ⟨rfl, rfl⟩, ⟨hfree s hs, hfree v hv⟩, .inl ⟨?_, hband⟩⟩
  rw [Rect.mem_iff] at hc hout hdv hcv
  cases side <;> simp only [Rect.band, Rect.edge, Side.opposite, Cell.NextTo, Prod.mk.injEq] at hnext hband ⊢ <;>
    omega

theorem WellTiled.edges_eq (h : t.WellTiled) (hfree : ∀ s ∈ t.segments, s.isFree = true) (hbanded : t.Banded side)
    (hstuck : ∀ a b, ¬t.Joinable side a b) {s : Segment} (hs : s ∈ t.segments) :
    s.rect.edge side = t.grid.edge side ∧ s.rect.edge side.opposite = t.grid.edge side.opposite :=
  ⟨h.edge_eq hfree hbanded hstuck hs,
    h.edge_eq hfree hbanded.opposite (fun a b hjoinable => hstuck a b hjoinable.of_opposite) hs⟩

/-- A segment that covers the grid is the only one. -/
theorem WellTiled.eq_singleton (h : t.WellTiled) {s : Segment} (hs : s ∈ t.segments) (hgrid : s.rect = t.grid) :
    t.segments = [s] := by
  have hnodup : t.segments.Nodup := h.ascending.imp fun hlt => ne_of_apply_ne Segment.id hlt.ne
  refine List.perm_singleton.1 ((List.perm_ext_iff_of_nodup hnodup (List.nodup_singleton _)).2 fun v => ?_)
  rw [List.mem_singleton]
  refine ⟨fun hv => ?_, fun heq => heq ▸ hs⟩
  obtain ⟨c, hc⟩ := Rect.inhabited_iff.1 (h.inhabited v hv)
  exact h.eq_of_mem hv hs hc (hgrid ▸ h.bounded v hv c hc)

/-! ### Grids of cells -/

theorem tilesExactly_cells (r : Rect) :
    TilesExactly (r.cells.map fun c => .free ⟨c.y, c.x, c.y + 1, c.x + 1⟩) (· ∈ r) := by
  have hcell {c d : Cell} : d ∈ (⟨c.y, c.x, c.y + 1, c.x + 1⟩ : Rect) ↔ d = c := by
    obtain ⟨cy, cx⟩ := c
    obtain ⟨dy, dx⟩ := d
    simp only [Rect.mem_iff, Cell.mk.injEq]
    omega
  rw [tilesExactly_rect_iff, List.map_map]
  refine ⟨?_, Rect.tiles_of_sum ?_ ?_ ?_⟩
  · rw [List.forall_mem_map]
    exact fun c _ => ⟨Nat.lt_succ_self _, Nat.lt_succ_self _⟩
  · refine List.pairwise_map.2 ((Rect.nodup_cells r).imp fun hne d hd hd' => hne ?_)
    exact (hcell.1 hd).symm.trans (hcell.1 hd')
  · rw [List.forall_mem_map]
    intro c hc d hd
    exact hcell.1 hd ▸ Rect.mem_of_mem_cells hc
  · have hone : Rect.cellCount ∘ Piece.rect ∘ (fun c : Cell => .free ⟨c.y, c.x, c.y + 1, c.x + 1⟩) = fun _ => 1 :=
      funext fun c => by simp [Rect.cellCount, Piece.free]
    rw [List.map_map, hone, List.map_const']
    simp [Rect.length_cells]

/-- A grid can be cut into cells, if there is a number for each. -/
theorem exists_cells {height width : Nat} (hheight : 0 < height) (hwidth : 0 < width)
    (hids : 1 + height * width ≤ Word.top) :
    ∃ t, (ofSize height width).performAll [.partition 0 ((ofSize height width).cellPieces 0)] = .ok t ∧
      t.WordTiled ∧ t.grid = ⟨0, 0, height, width⟩ ∧ (∀ s ∈ t.segments, s.isFree = true) ∧
        t.segments.length = height * width ∧ t.nextId = 1 + height * width := by
  classical
  have hh : height ≤ height * width := Nat.le_mul_of_pos_right _ hwidth
  have hw : width ≤ height * width := Nat.le_mul_of_pos_left _ hheight
  have h : (ofSize height width).WordTiled := wordTiled_ofSize (by omega) (by omega)
  have hofSize := ofSize_of_pos hheight hwidth
  have hs : Segment.isolated 0 (.free ⟨0, 0, height, width⟩) ∈ (ofSize height width).segments := by
    rw [hofSize]
    exact List.mem_singleton_self _
  have hpieces : (ofSize height width).cellPieces 0 =
      (⟨0, 0, height, width⟩ : Rect).cells.map fun c => .free ⟨c.y, c.x, c.y + 1, c.x + 1⟩ := by
    rw [hofSize]
    rfl
  have hlength : ((ofSize height width).cellPieces 0).length = height * width := by
    rw [hpieces, List.length_map, Rect.length_cells, Rect.cellCount, Nat.sub_zero, Nat.sub_zero]
  have htiled : TilesExactly ((ofSize height width).cellPieces 0) (· ∈ (⟨0, 0, height, width⟩ : Rect)) :=
    hpieces ▸ tilesExactly_cells _
  have he := h.replaces_single hs (tilesExactly_rect_iff.1 htiled).2 (tilesExactly_rect_iff.1 htiled).1
  have hnext : (ofSize height width).nextId = 1 := by rw [hofSize]
  have hcommit : (ofSize height width).commit ⟨[0], (ofSize height width).cellPieces 0⟩ =
      .ok ((fresh 1 ((ofSize height width).cellPieces 0)).map Segment.id,
        (ofSize height width).replace ⟨[0], (ofSize height width).cellPieces 0⟩ (1 + height * width)) := by
    refine (h.commit_eq he).trans ?_
    simp only [hnext, hlength, if_pos hids]
    rfl
  have hmade := ((h.partition_of_free hs rfl (h.measured he)).trans (if_pos htiled)).trans hcommit
  refine ⟨_, ?_, h.changes (.single (.commit hcommit)), ?_, fun v hv => ?_, ?_, rfl⟩
  · refine bind_eq_ok_iff.2 ⟨(_, .made _), bind_eq_ok_iff.2 ⟨_, Outcome.settle_eq_ok_ok_iff.2 hmade, rfl⟩, rfl⟩
  · rw [hofSize]
    rfl
  · obtain ⟨p, hp, -, hfree⟩ := mem_replace_single (congrArg segments hofSize) hv
    obtain ⟨c, -, rfl⟩ := List.mem_map.1 (hpieces ▸ hp)
    exact hfree
  · have hone : (ofSize height width).segments.length = 1 := by rw [hofSize]; rfl
    have hreplaced := he.length_replace h.toWellTiled (1 + height * width)
    rw [hone, List.length_singleton, hlength, Nat.add_comm] at hreplaced
    exact Nat.add_left_cancel hreplaced

/-- Free segments of a single row can be joined until one is left. -/
theorem WellTiled.exists_joinable_of_row (h : t.WellTiled) (hheight : t.height = 1)
    (hfree : ∀ s ∈ t.segments, s.isFree = true) (htwo : 2 ≤ t.segments.length) : ∃ a b, t.Joinable .right a b := by
  by_contra hnone
  push Not at hnone
  have hrow (s) (hs : s ∈ t.segments) : s.rect.y0 = 0 ∧ s.rect.y1 = 1 := by
    have hbounds := h.bounds hs
    have hinhabited := (h.inhabited s hs).1
    omega
  have hbanded : t.Banded .right := fun s hs v hv _ => by
    simp only [Rect.band, hrow s hs, hrow v hv]
  obtain ⟨s, hs⟩ := List.exists_mem_of_length_pos (by omega : 0 < t.segments.length)
  obtain ⟨hright, hleft⟩ := h.edges_eq hfree hbanded hnone hs
  have hgrid : s.rect = t.grid := by
    refine Rect.eq_of_edges fun side => ?_
    cases side with
    | above => exact (hrow s hs).1
    | below => exact (hrow s hs).2.trans hheight.symm
    | left => exact hleft
    | right => exact hright
  rw [h.eq_singleton hs hgrid, List.length_singleton] at htwo
  omega

/-- Joining the cells of a long row stops with a pair left. -/
theorem row_left_in_pieces {width : Nat} (hlimit : mergeLimit + 1 < width)
    (hids : 1 + width + mergeLimit < Word.top) :
    ∃ t t', (ofSize 1 width).performAll [.partition 0 ((ofSize 1 width).cellPieces 0)] = .ok t ∧
      t.mergeRows = .ok (mergeLimit, t') ∧ ∃ a b n u, t'.mergeHorizontal a b = .ok (some (n, u)) := by
  obtain ⟨t, hcut, h, hgrid, hfree, hlength, hnext⟩ := exists_cells Nat.one_pos (by omega : 0 < width) (by omega)
  rcases h.mergeAligned_cases (fun _ => rfl) joinsOn_besides mergeLimit with
    ⟨count, t', hrows, hle, hfused, hend⟩ | ⟨-, hlt⟩
  · have hleft := hfused.length
    have hheight : t'.height = 1 := congrArg Rect.y1 (hfused.grid.trans hgrid)
    obtain ⟨a, b, hjoinable⟩ := hfused.wordTiled.exists_joinable_of_row hheight (hfused.free hfree) (by omega)
    obtain rfl : count = mergeLimit := hend.resolve_right fun hnone => hnone a b hjoinable
    obtain ⟨s, hs, v, hv, ⟨rfl, rfl⟩, ⟨hsfree, hvfree⟩, habuts⟩ := hjoinable
    have hmerge := hfused.wordTiled.mergePair_eq joinsOn_besides hs hv hsfree hvfree habuts
    refine ⟨t, t', hcut, hrows, s.id, v.id, _, _, hmerge.trans (if_pos ?_)⟩
    rw [hfused.nextId]
    omega
  · omega

/-- On every tiling that operations lead to, joining all columns or all rows counts its joins and ends without a
pair, unless it makes as many joins as it may. -/
theorem pairs_joined_up_to_limit {height width : Nat} {ops : List Operation} {t : Tiling}
    (hheight : height ≤ Word.top) (hwidth : width ≤ Word.top)
    (hreach : (ofSize height width).performAll ops = .ok t) :
    t.MergeSettled mergeVertical t.mergeColumns ∧ t.MergeSettled mergeHorizontal t.mergeRows := by
  have h := wordTiled_of_performAll hheight hwidth hreach
  exact ⟨h.mergeSettled (fun _ => rfl) joinsOn_stacked, h.mergeSettled (fun _ => rfl) joinsOn_besides⟩

/-- The upper row of the grid with a corner cut off is joined again. -/
theorem corner_rows_joined : ∃ t', Corner.tiling.mergeRows = .ok (1, t') ∧
    t'.segments.length + 1 = Corner.tiling.segments.length ∧ ∀ a b, t'.mergeHorizontal a b = .ok none := by
  have hreach : (ofSize 2 3).performAll Corner.ops = .ok Corner.tiling := by decide +kernel
  obtain ⟨-, hrows⟩ := pairs_joined_up_to_limit (by decide) (by decide) hreach
  have hresult : Corner.tiling.mergeRows = .ok (1, _) := rfl
  exact ⟨_, hresult, (hrows.counted _ _ hresult).2, hrows.fixed _ _ hresult (.inl (by decide))⟩

/-- A row of 1026 cells is left in two pieces. -/
theorem long_row_left_in_pieces :
    ∃ t t', (ofSize 1 1026).performAll [.partition 0 ((ofSize 1 1026).cellPieces 0)] = .ok t ∧
      t.mergeRows = .ok (1024, t') ∧ ∃ a b n u, t'.mergeHorizontal a b = .ok (some (n, u)) :=
  row_left_in_pieces (by decide) (by decide)

end SurfaceFabric.Tiling
