import SurfaceFabric.Proofs.Tiling.FixedPoint

/-!
Joining undoes a cut. What a box leaves of a grid lies in three bands of rows: above it, beside it and below it.
Joining rows fills each band from edge to edge, and joining columns then makes one segment of the bands, whichever
of them there are.
-/

namespace SurfaceFabric.Tiling

variable {t : Tiling} {side : Side} {join? : Rect → Rect → Option Rect} {links : Segment → List Nat}

/-- Few free segments in bands are joined until each fills its band from edge to edge. -/
theorem WordTiled.bands_filled (h : t.WordTiled) (hlinks : ∀ s, links s = s.neighbours side)
    (hjoin : JoinsOn side join?) (hfree : ∀ s ∈ t.segments, s.isFree = true) (hbanded : t.Banded side)
    (hfew : t.segments.length < mergeLimit) (hids : t.nextId + mergeLimit ≤ Word.top) :
    ∃ count t', mergeAligned links join? mergeLimit t = .ok (count, t') ∧ Fused side count t t' ∧
      ∀ s ∈ t'.segments, s.rect.edge side = t.grid.edge side ∧
        s.rect.edge side.opposite = t.grid.edge side.opposite := by
  rcases h.mergeAligned_cases hlinks hjoin mergeLimit with ⟨count, t', hjoined, -, hfused, hend⟩ | ⟨-, hlt⟩
  · have hlength := hfused.length
    have hstuck := hend.resolve_left (by omega)
    refine ⟨count, t', hjoined, hfused, fun s hs => ?_⟩
    rw [← hfused.grid]
    exact hfused.wordTiled.edges_eq (hfused.free hfree) (hbanded.fused hfused) hstuck hs
  · omega

/-- The first piece that an edit adds gets the next number. -/
theorem WellTiled.segment?_nextId {removed : List Nat} {p : Piece} {rest : List Piece} {n : Nat}
    (h : (t.replace ⟨removed, p :: rest⟩ n).WellTiled) :
    ((t.replace ⟨removed, p :: rest⟩ n).segment? t.nextId).map Segment.rect = some p.rect := by
  have hfirst : t.linkedAnew ⟨removed, p :: rest⟩ (.isolated t.nextId p) ∈
      (t.replace ⟨removed, p :: rest⟩ n).segments := mem_replace.2 (.inr ⟨_, List.mem_cons_self, rfl⟩)
  exact Option.map_eq_some_iff.2 ⟨_, (segment?_eq_some_iff h.ascending).2 ⟨hfirst, rfl⟩, rfl⟩

/-- A box and what it leaves of a rectangle lie in bands of rows. -/
theorem band_of_cut {r inner p : Rect} (hp : p ∈ inner :: r.remainder inner) : p.band .right = (r.y0, inner.y0) ∨
    p.band .right = (inner.y0, inner.y1) ∨ p.band .right = (inner.y1, r.y1) := by
  rcases List.mem_cons.1 hp with rfl | hp
  · exact .inr (.inl rfl)
  · have hparts := List.mem_of_mem_filter hp
    simp only [List.mem_cons, List.not_mem_nil, or_false] at hparts
    rcases hparts with rfl | rfl | rfl | rfl <;> simp [Rect.band]

/-- Two parts of a cut that have a row in common have all rows in common. -/
theorem band_eq_of_cut {r inner p q : Rect} (hinner : inner.Inhabited) (hp : p ∈ inner :: r.remainder inner)
    (hq : q ∈ inner :: r.remainder inner)
    (hmeet : max (p.band .right).1 (q.band .right).1 < min (p.band .right).2 (q.band .right).2) :
    p.band .right = q.band .right := by
  have hrows := hinner.1
  rcases band_of_cut hp with hp | hp | hp <;> rcases band_of_cut hq with hq | hq | hq <;>
    rw [hp, hq] at hmeet ⊢ <;> dsimp only at hmeet <;> omega

section

variable {s : Segment} {b : Box} (h : t.WordTiled) (hone : t.segments = [s]) (hfree : s.isFree = true)
  (hbox : b.rect.Inhabited) (hincludes : s.rect.includes b.rect = true)

include h hone hfree hbox hincludes

/-- A grid in one segment is split into the box and a few more free segments, in bands of rows. -/
theorem WordTiled.split_single (hids : t.nextId + 5 ≤ Word.top) :
    ∃ first rest cut, t.split s.id b = .ok (first :: rest, cut) ∧
      (cut.segment? first).map Segment.rect = some b.rect ∧ cut.WordTiled ∧ cut.grid = t.grid ∧
      (∀ v ∈ cut.segments, v.isFree = true) ∧ cut.Banded .right ∧ cut.segments.length ≤ 5 ∧
        cut.nextId ≤ t.nextId + 5 := by
  have hs : s ∈ t.segments := hone ▸ List.mem_singleton_self s
  have hallocated : s.allocated = false := by simp_all [Segment.isFree]
  have hfew := length_remainder_le s.rect b.rect
  have he : t.Replaces ⟨[s.id], (b.rect :: s.rect.remainder b.rect).map fun r => ⟨r, s.role, false⟩⟩ :=
    h.replaces_cut hs hbox hincludes ⟨b.rect, s.role, false⟩ rfl s.role
  have hsplit := (h.split_eq hs hallocated hbox hincludes).trans (if_pos (by omega))
  have hcommit := (h.commit_eq he).trans (if_pos (by simpa using (by omega)))
  rw [List.length_map, List.length_cons] at hcommit
  have hpiece {v : Segment} {n : Nat} (hv : v ∈ (t.replace
      ⟨[s.id], (b.rect :: s.rect.remainder b.rect).map fun r => ⟨r, s.role, false⟩⟩ n).segments) :
      v.isFree = true ∧ v.rect ∈ b.rect :: s.rect.remainder b.rect := by
    obtain ⟨p, hp, hrect, hpfree⟩ := mem_replace_single hone hv
    obtain ⟨r, hr, rfl⟩ := List.mem_map.1 hp
    rw [hpfree, hrect, ← hfree, Segment.isFree, hallocated]
    exact ⟨rfl, hr⟩
  have hcut := h.changes (.single (.commit hcommit))
  refine ⟨t.nextId, _, _, hsplit, ?_, hcut, rfl, fun v hv => (hpiece hv).1, ?_, ?_, ?_⟩
  · exact WellTiled.segment?_nextId hcut.toWellTiled
  · exact fun v hv w hw => band_eq_of_cut hbox (hpiece hv).2 (hpiece hw).2
  · have hlength := he.length_replace h.toWellTiled (t.nextId + ((s.rect.remainder b.rect).length + 1))
    simp only [hone, List.length_map, List.length_cons, List.length_nil] at hlength
    omega
  · show t.nextId + _ ≤ _
    omega

/-- A grid in one segment that is split around a box becomes one segment again: joining rows makes every segment as
wide as the grid, and segments that are as wide as the grid lie in one band of columns. -/
theorem WordTiled.split_rejoined (hids : t.nextId + 5 + (mergeLimit + mergeLimit) ≤ Word.top) :
    ∃ first rest cut m rows n joined, t.split s.id b = .ok (first :: rest, cut) ∧
      (cut.segment? first).map Segment.rect = some b.rect ∧ cut.mergeRows = .ok (m, rows) ∧
      rows.mergeColumns = .ok (n, joined) ∧ joined.WordTiled ∧
        ∃ v, joined.segments = [v] ∧ v.isFree = true ∧ v.rect = t.grid := by
  obtain ⟨first, rest, cut, hsplit, hfirst, hcut, hgrid, hcutFree, hbands, hfew, hnext⟩ :=
    h.split_single hone hfree hbox hincludes (by omega)
  have hlimit : mergeLimit = 1024 := rfl
  obtain ⟨m, rows, hrows, hfusedRows, hwide⟩ :=
    hcut.bands_filled (fun _ => rfl) joinsOn_besides hcutFree hbands (by omega) (by omega)
  have hrowsLength := hfusedRows.length
  have hrowsNext := hfusedRows.nextId
  have hcolumn : rows.Banded .below := fun v hv w hw _ => by
    obtain ⟨hvright, hvleft⟩ := hwide v hv
    obtain ⟨hwright, hwleft⟩ := hwide w hw
    exact Prod.ext (hvleft.trans hwleft.symm) (hvright.trans hwright.symm)
  obtain ⟨n, joined, hjoined, hfused, htall⟩ := hfusedRows.wordTiled.bands_filled (fun _ => rfl) joinsOn_stacked
    (hfusedRows.free hcutFree) hcolumn (by omega) (by omega)
  have hjoinedGrid : joined.grid = t.grid := hfused.grid.trans (hfusedRows.grid.trans hgrid)
  obtain ⟨v, hv⟩ : ∃ v, v ∈ joined.segments := by
    have hs : s ∈ t.segments := hone ▸ List.mem_singleton_self s
    obtain ⟨c, hc⟩ := Rect.inhabited_iff.1 (h.inhabited s hs)
    obtain ⟨v, hv, -⟩ := hfused.wordTiled.covered c (hjoinedGrid ▸ h.bounded s hs c hc)
    exact ⟨v, hv⟩
  have hrect : v.rect = t.grid := by
    obtain ⟨w, hw, hband⟩ := hfused.band v hv
    obtain ⟨hleft, hright⟩ := Prod.mk.inj hband
    obtain ⟨hwright, hwleft⟩ := hwide w hw
    obtain ⟨hbelow, habove⟩ := htall v hv
    rw [hfusedRows.grid, hgrid] at hbelow habove
    rw [hgrid] at hwright hwleft
    refine Rect.eq_of_edges fun side => ?_
    cases side with
    | above => exact habove
    | below => exact hbelow
    | left => exact hleft.symm.trans hwleft
    | right => exact hright.symm.trans hwright
  have hsingle := hfused.wordTiled.eq_singleton hv (hrect.trans hjoinedGrid.symm)
  exact ⟨first, rest, cut, m, rows, n, joined, hsplit, hfirst, hrows, hjoined, hfused.wordTiled, v, hsingle,
    hfused.free (hfusedRows.free hcutFree) v hv, hrect⟩

end

/-- A segment alone on its grid has no neighbours. -/
theorem WellTiled.neighbours_eq_nil (h : t.WellTiled) {s : Segment} (hone : t.segments = [s]) (side : Side) :
    s.neighbours side = [] := by
  have hs : s ∈ t.segments := hone ▸ List.mem_singleton_self s
  refine List.eq_nil_iff_forall_not_mem.2 fun n hn => ?_
  obtain ⟨v, hv, rfl, hne, -⟩ := (h.linked s hs side n).1 hn
  rw [hone, List.mem_singleton] at hv
  exact hne (congrArg Segment.id hv.symm)

/-- Splitting a grid around a box makes a segment of the box, and joining first rows, then columns leaves the grid in
one free segment. -/
theorem split_undone_by_joins {height width : Nat} {b : Box} (hheight : height ≤ Word.top) (hwidth : width ≤ Word.top)
    (htall : 0 < b.h) (hwide : 0 < b.w) (hbelow : b.y + b.h ≤ height) (hright : b.x + b.w ≤ width) :
    ∃ first rest cut m rows n joined, (ofSize height width).split 0 b = .ok (first :: rest, cut) ∧
      (cut.segment? first).map Segment.rect = some b.rect ∧ cut.mergeRows = .ok (m, rows) ∧
      rows.mergeColumns = .ok (n, joined) ∧ ∃ s, joined.segments = [s] ∧ s.isFree = true ∧
        s.rect = ⟨0, 0, height, width⟩ ∧ ∀ side, s.neighbours side = [] := by
  have h := wordTiled_ofSize hheight hwidth
  have hofSize := ofSize_of_pos (by omega : 0 < height) (by omega : 0 < width)
  have hbox : b.rect.Inhabited := ⟨Nat.lt_add_of_pos_right htall, Nat.lt_add_of_pos_right hwide⟩
  have hincludes : (⟨0, 0, height, width⟩ : Rect).includes b.rect = true := by
    simp [Rect.includes, Box.rect, hbelow, hright]
  rw [hofSize] at h ⊢
  obtain ⟨first, rest, cut, m, rows, n, joined, hsplit, hfirst, hrows, hcolumns, hjoined, s, hone, hfree, hrect⟩ :=
    h.split_rejoined rfl rfl hbox hincludes (show 1 + 5 + (mergeLimit + mergeLimit) ≤ Word.top by decide)
  exact ⟨first, rest, cut, m, rows, n, joined, hsplit, hfirst, hrows, hcolumns, s, hone, hfree, hrect,
    hjoined.neighbours_eq_nil hone⟩

/-- A box in the middle of a grid, with something left on every side. -/
theorem middle_split_undone : 1 + 2 ≤ 4 ∧ 2 + 1 ≤ 5 ∧
    ∃ first rest cut m rows n joined, (ofSize 4 5).split 0 ⟨1, 2, 2, 1⟩ = .ok (first :: rest, cut) ∧
      (cut.segment? first).map Segment.rect = some ⟨1, 2, 3, 3⟩ ∧ cut.mergeRows = .ok (m, rows) ∧
      rows.mergeColumns = .ok (n, joined) ∧ ∃ s, joined.segments = [s] ∧ s.isFree = true ∧
        s.rect = ⟨0, 0, 4, 5⟩ ∧ ∀ side, s.neighbours side = [] :=
  ⟨by decide, by decide,
    split_undone_by_joins (by decide) (by decide) (by decide) (by decide) (by decide) (by decide)⟩

end SurfaceFabric.Tiling
