import Mathlib.Algebra.GroupWithZero.Nat
import Mathlib.Data.Finset.Prod
import Mathlib.Order.Interval.Finset.Nat
import SurfaceFabric.Proofs.Failure
import SurfaceFabric.Tiling.Edit

/-!
Rectangles as sets of cells. Areas count cells, rectangles overlap when they have a cell in common, and
two that do not overlap lie against each other when a cell of one is next to a cell of the other.
Rectangles whose shares of another add up to its area cover it.
-/

namespace SurfaceFabric

def Cell.NextTo (c : Cell) (side : Side) (d : Cell) : Prop :=
  match side with
  | .above => d.y + 1 = c.y ∧ d.x = c.x
  | .below => d.y = c.y + 1 ∧ d.x = c.x
  | .left => d.y = c.y ∧ d.x + 1 = c.x
  | .right => d.y = c.y ∧ d.x = c.x + 1

theorem Cell.NextTo.symm {c d : Cell} {side : Side} (h : c.NextTo side d) :
    d.NextTo side.opposite c := by
  cases side <;> obtain ⟨hy, hx⟩ := h <;> exact ⟨by omega, by omega⟩

def Box.rect (b : Box) : Rect := ⟨b.y, b.x, b.y + b.h, b.x + b.w⟩

namespace Rect

variable {r s : Rect} {c : Cell} {side : Side}

instance : Membership Cell Rect := ⟨fun r c => r.contains c = true⟩

theorem mem_iff :
    c ∈ r ↔ r.y0 ≤ c.y ∧ c.y < r.y1 ∧ r.x0 ≤ c.x ∧ c.x < r.x1 :=
  contains_iff

instance (r : Rect) (c : Cell) : Decidable (c ∈ r) := inferInstanceAs (Decidable (_ = true))

theorem ofBox_eq_ok {b : Box} (h : ofBox b = .ok r) :
    r = ⟨b.y, b.x, b.y + b.h, b.x + b.w⟩ := by
  obtain ⟨_, hy, h⟩ := bind_eq_ok_iff.1 h
  obtain ⟨_, hx, h⟩ := bind_eq_ok_iff.1 h
  obtain ⟨-, rfl⟩ := Word.add_eq_ok_iff.1 hy
  obtain ⟨-, rfl⟩ := Word.add_eq_ok_iff.1 hx
  exact (pure_eq_ok_iff.1 h).symm

theorem failsOnly_ofBox {B : Prop} {b : Box}
    (hB : B → b.y + b.h ≤ Word.top ∧ b.x + b.w ≤ Word.top) : FailsOnly (Fault.Allowed B) (ofBox b) :=
  (Word.failsOnly_add fun h => (hB h).1).bind fun _ _ =>
    (Word.failsOnly_add fun h => (hB h).2).bind fun _ _ => .pure _

def InWord (r : Rect) : Prop := r.y1 ≤ Word.top ∧ r.x1 ≤ Word.top

def Inhabited (r : Rect) : Prop := r.y0 < r.y1 ∧ r.x0 < r.x1

def Apart (r s : Rect) : Prop := ∀ c ∈ r, c ∉ s

/-- A cell of `r` has a cell of `s` next to it on the given side. -/
def Touches (r s : Rect) (side : Side) : Prop := ∃ c ∈ r, ∃ d ∈ s, c.NextTo side d

theorem isEmpty_eq_false_iff : r.isEmpty = false ↔ r.Inhabited := by
  simp [isEmpty, Inhabited]

theorem isEmpty_iff : r.isEmpty = true ↔ ∀ c, c ∉ r := by
  constructor
  · intro h c hc
    rw [mem_iff] at hc
    simp only [isEmpty, Bool.or_eq_true, decide_eq_true_eq] at h
    omega
  · intro h
    by_contra hne
    rw [Bool.not_eq_true, isEmpty_eq_false_iff] at hne
    exact h ⟨r.y0, r.x0⟩ (mem_iff.2 ⟨le_rfl, hne.1, le_rfl, hne.2⟩)

theorem mem_meet : c ∈ r.meet s ↔ c ∈ r ∧ c ∈ s := by
  simp only [mem_iff, meet]
  omega

theorem Apart.symm (h : r.Apart s) : s.Apart r := fun c hc hr => h c hr hc

theorem overlaps_eq_false_iff : r.overlaps s = false ↔ r.Apart s := by
  simp only [overlaps, Bool.not_eq_false', isEmpty_iff, mem_meet, not_and]
  rfl

theorem includes_iff (hs : s.Inhabited) : r.includes s = true ↔ ∀ c ∈ s, c ∈ r := by
  obtain ⟨hy, hx⟩ := hs
  simp only [includes, Bool.and_eq_true, decide_eq_true_eq, mem_iff]
  constructor
  · intro h c hc
    omega
  · intro h
    have hfirst := h ⟨s.y0, s.x0⟩
    have hlast := h ⟨s.y1 - 1, s.x1 - 1⟩
    dsimp only at hfirst hlast
    omega

theorem Touches.symm (h : r.Touches s side) :
    s.Touches r side.opposite := by
  obtain ⟨c, hc, d, hd, hnext⟩ := h
  exact ⟨d, hd, c, hc, hnext.symm⟩

/-- Lying against each other edge to edge, side by side. -/
theorem touches_iff (h : r.Apart s) (side : Side) : r.Touches s side ↔
    match side with
    | .above => max r.x0 s.x0 < min r.x1 s.x1 ∧ r.Inhabited ∧ s.Inhabited ∧ s.y1 = r.y0
    | .below => max r.x0 s.x0 < min r.x1 s.x1 ∧ r.Inhabited ∧ s.Inhabited ∧ s.y0 = r.y1
    | .left => max r.y0 s.y0 < min r.y1 s.y1 ∧ r.Inhabited ∧ s.Inhabited ∧ s.x1 = r.x0
    | .right => max r.y0 s.y0 < min r.y1 s.y1 ∧ r.Inhabited ∧ s.Inhabited ∧ s.x0 = r.x1 := by
  constructor
  · rintro ⟨c, hc, d, hd, hnext⟩
    have hcs := h c hc
    have hdr := h.symm d hd
    cases side <;> simp only [Cell.NextTo, mem_iff, Inhabited] at * <;> omega
  · cases side <;> rintro ⟨hcommon, hr, hs, hedge⟩
    · refine ⟨⟨r.y0, max r.x0 s.x0⟩, ?_, ⟨r.y0 - 1, max r.x0 s.x0⟩, ?_, ?_⟩ <;>
        simp only [Cell.NextTo, mem_iff, Inhabited, and_true] at * <;> omega
    · refine ⟨⟨r.y1 - 1, max r.x0 s.x0⟩, ?_, ⟨r.y1, max r.x0 s.x0⟩, ?_, ?_⟩ <;>
        simp only [Cell.NextTo, mem_iff, Inhabited, and_true] at * <;> omega
    · refine ⟨⟨max r.y0 s.y0, r.x0⟩, ?_, ⟨max r.y0 s.y0, r.x0 - 1⟩, ?_, ?_⟩ <;>
        simp only [Cell.NextTo, mem_iff, Inhabited, true_and] at * <;> omega
    · refine ⟨⟨max r.y0 s.y0, r.x1 - 1⟩, ?_, ⟨max r.y0 s.y0, r.x1⟩, ?_, ?_⟩ <;>
        simp only [Cell.NextTo, mem_iff, Inhabited, true_and] at * <;> omega

theorem touchingSide?_eq_some_iff (hr : r.Inhabited) (hs : s.Inhabited)
    (h : r.Apart s) : r.touchingSide? s = some side ↔ r.Touches s side := by
  rw [touches_iff h]
  simp only [hr, hs, true_and]
  obtain ⟨hry, hrx⟩ := hr
  obtain ⟨hsy, hsx⟩ := hs
  unfold touchingSide?
  dsimp only
  split_ifs <;> cases side <;> simp only [Option.some.injEq, reduceCtorEq, true_iff, false_iff] <;> omega

theorem touchingSide?_self (hr : r.Inhabited) : r.touchingSide? r = none := by
  obtain ⟨hy, hx⟩ := hr
  unfold touchingSide?
  dsimp only
  split_ifs <;> first | rfl | omega

theorem touchingSide?_symm (hr : r.Inhabited) (hs : s.Inhabited) (h : r.Apart s) :
    s.touchingSide? r = (r.touchingSide? s).map Side.opposite := by
  have hflip (side : Side) (hside : s.touchingSide? r = some side) :
      r.touchingSide? s = some side.opposite :=
    (touchingSide?_eq_some_iff hr hs h).2 ((touchingSide?_eq_some_iff hs hr h.symm).1 hside).symm
  cases hrs : r.touchingSide? s with
  | some side => exact (touchingSide?_eq_some_iff hs hr h.symm).2 ((touchingSide?_eq_some_iff hr hs h).1 hrs).symm
  | none =>
      cases hsr : s.touchingSide? r with
      | none => rfl
      | some side =>
          rw [hflip side hsr] at hrs
          cases hrs

/-- The rectangles, with their borders, have a single point in common. -/
def MeetsAtCorner (r s : Rect) : Prop :=
  ∃! p : Nat × Nat, (max r.y0 s.y0 ≤ p.1 ∧ p.1 ≤ min r.y1 s.y1) ∧ max r.x0 s.x0 ≤ p.2 ∧ p.2 ≤ min r.x1 s.x1

/-- Rectangles that lie against each other have more than one point in common. -/
theorem touchingSide?_eq_none_of_corner (h : r.MeetsAtCorner s) : r.touchingSide? s = none := by
  obtain ⟨⟨y, x⟩, hcommon, hunique⟩ := h
  dsimp only at hcommon hunique
  have hrows : ¬max r.y0 s.y0 < min r.y1 s.y1 := by
    intro hlt
    have hlow := congrArg Prod.fst (hunique (max r.y0 s.y0, x) (by dsimp only; omega))
    have hhigh := congrArg Prod.fst (hunique (min r.y1 s.y1, x) (by dsimp only; omega))
    dsimp only at hlow hhigh
    omega
  have hcolumns : ¬max r.x0 s.x0 < min r.x1 s.x1 := by
    intro hlt
    have hlow := congrArg Prod.snd (hunique (y, max r.x0 s.x0) (by dsimp only; omega))
    have hhigh := congrArg Prod.snd (hunique (y, min r.x1 s.x1) (by dsimp only; omega))
    dsimp only at hlow hhigh
    omega
  simp only [touchingSide?, hrows, hcolumns, false_and, if_false]

/-- Sides of contact are exact: of two rectangles without common cells, one lies on a side of the other if a cell
has a neighbour there, on no second side, and they see each other on opposite sides. Contact at a corner is none. -/
theorem touching_exact_and_symmetric (hr : r.Inhabited) (hs : s.Inhabited) (h : r.Apart s) :
    (∀ side, r.touchingSide? s = some side ↔ r.Touches s side) ∧
      (∀ side side', r.Touches s side → r.Touches s side' → side = side') ∧
      s.touchingSide? r = (r.touchingSide? s).map Side.opposite ∧
      (r.MeetsAtCorner s → r.touchingSide? s = none ∧ s.touchingSide? r = none) := by
  have hexact (side : Side) : r.touchingSide? s = some side ↔ r.Touches s side := touchingSide?_eq_some_iff hr hs h
  have hsymm := touchingSide?_symm hr hs h
  refine ⟨hexact, fun side side' hside hside' => ?_, hsymm, fun hcorner => ?_⟩
  · exact Option.some.inj (((hexact side).2 hside).symm.trans ((hexact side').2 hside'))
  · have hnone := touchingSide?_eq_none_of_corner hcorner
    rw [hsymm, hnone]
    exact ⟨rfl, rfl⟩

/-- One rectangle above another and one at its corner. -/
theorem touching_above_and_corner :
    (⟨2, 2, 4, 4⟩ : Rect).Touches ⟨0, 3, 2, 7⟩ .above ∧
      (⟨0, 3, 2, 7⟩ : Rect).touchingSide? ⟨2, 2, 4, 4⟩ = some .below ∧
      (⟨2, 2, 4, 4⟩ : Rect).touchingSide? ⟨0, 0, 2, 2⟩ = none := by
  have hover : (⟨2, 2, 4, 4⟩ : Rect).Apart ⟨0, 3, 2, 7⟩ := overlaps_eq_false_iff.1 rfl
  have hcorner : (⟨2, 2, 4, 4⟩ : Rect).Apart ⟨0, 0, 2, 2⟩ := overlaps_eq_false_iff.1 rfl
  obtain ⟨hside, -, hback, -⟩ := touching_exact_and_symmetric ⟨by decide, by decide⟩ ⟨by decide, by decide⟩ hover
  obtain ⟨-, -, -, hnone⟩ := touching_exact_and_symmetric ⟨by decide, by decide⟩ ⟨by decide, by decide⟩ hcorner
  refine ⟨(hside _).1 rfl, hback, (hnone ⟨(2, 2), by decide, ?_⟩).1⟩
  rintro ⟨y, x⟩ h
  dsimp only at h
  rw [Prod.mk.injEq]
  omega

def cover (r : Rect) : Finset (Nat × Nat) := Finset.Ico r.y0 r.y1 ×ˢ Finset.Ico r.x0 r.x1

theorem mem_cover {p : Nat × Nat} : p ∈ r.cover ↔ ⟨p.1, p.2⟩ ∈ r := by
  simp [cover, mem_iff, and_assoc]

theorem card_cover (r : Rect) : r.cover.card = r.cellCount := by
  simp [cover, cellCount]

def union (rects : List Rect) : Finset (Nat × Nat) := rects.foldr (fun r u => r.cover ∪ u) ∅

theorem mem_union {rects : List Rect} {p : Nat × Nat} :
    p ∈ union rects ↔ ∃ r ∈ rects, ⟨p.1, p.2⟩ ∈ r := by
  induction rects with
  | nil => simp [union]
  | cons r rects ih =>
      rw [union, List.foldr_cons, ← union, Finset.mem_union, ih, mem_cover]
      simp

theorem card_union {rects : List Rect} (h : rects.Pairwise Apart) :
    (union rects).card = (rects.map cellCount).sum := by
  induction rects with
  | nil => rfl
  | cons r rects ih =>
      obtain ⟨hr, hrects⟩ := List.pairwise_cons.1 h
      have hdisjoint : Disjoint r.cover (union rects) := by
        rw [Finset.disjoint_left]
        intro p hp hu
        obtain ⟨s, hs, hmem⟩ := mem_union.1 hu
        exact hr s hs _ (mem_cover.1 hp) hmem
      rw [union, List.foldr_cons, ← union, Finset.card_union_of_disjoint hdisjoint, ih hrects,
        card_cover, List.map_cons, List.sum_cons]

theorem union_map_meet (rects : List Rect) (r : Rect) :
    union (rects.map fun s => s.meet r) = union rects ∩ r.cover := by
  ext p
  simp only [mem_union, Finset.mem_inter, mem_cover, List.mem_map, exists_exists_and_eq_and,
    mem_meet]
  constructor
  · rintro ⟨s, hs, hps, hpr⟩
    exact ⟨⟨s, hs, hps⟩, hpr⟩
  · rintro ⟨⟨s, hs, hps⟩, hpr⟩
    exact ⟨s, hs, hps, hpr⟩

/-- If the shares of separate rectangles in `r` add up to its area, they cover it. -/
theorem cover_subset_union {rects : List Rect} (h : rects.Pairwise Apart)
    (hsum : (rects.map fun s => (s.meet r).cellCount).sum = r.cellCount) :
    r.cover ⊆ union rects := by
  have hmeets : (rects.map fun s => s.meet r).Pairwise Apart := by
    rw [List.pairwise_map]
    exact h.imp fun hab c ha hb => hab c (mem_meet.1 ha).1 (mem_meet.1 hb).1
  have hcard : (union rects ∩ r.cover).card = r.cover.card := by
    rw [← union_map_meet, card_union hmeets, List.map_map, card_cover]
    exact hsum
  rw [← Finset.eq_of_subset_of_card_le Finset.inter_subset_right hcard.ge]
  exact Finset.inter_subset_left

theorem cellCount_le (h : ∀ c ∈ r, c ∈ s) : r.cellCount ≤ s.cellCount := by
  rw [← card_cover, ← card_cover]
  exact Finset.card_le_card fun p hp => mem_cover.2 (h _ (mem_cover.1 hp))

/-- Separate rectangles have no more cells together than what they lie in. -/
theorem sum_cellCount_le {rects : List Rect} (h : rects.Pairwise Apart)
    (hinside : ∀ s ∈ rects, ∀ c ∈ s, c ∈ r) : (rects.map cellCount).sum ≤ r.cellCount := by
  rw [← card_union h, ← card_cover]
  refine Finset.card_le_card fun p hp => ?_
  obtain ⟨s, hs, hmem⟩ := mem_union.1 hp
  exact mem_cover.2 (hinside s hs _ hmem)

/-- The shares of separate rectangles that cover `r` add up to its area. -/
theorem sum_meets {rects : List Rect} (h : rects.Pairwise Apart) (hcovered : ∀ c ∈ r, ∃ s ∈ rects, c ∈ s) :
    (rects.map fun s => (s.meet r).cellCount).sum = r.cellCount := by
  have hmeets : (rects.map fun s => s.meet r).Pairwise Apart := by
    rw [List.pairwise_map]
    exact h.imp fun hab c ha hb => hab c (mem_meet.1 ha).1 (mem_meet.1 hb).1
  have hsum := card_union hmeets
  rw [union_map_meet, List.map_map] at hsum
  rw [← card_cover r, ← Finset.inter_eq_right.2 fun p hp => mem_union.2 (hcovered _ (mem_cover.1 hp)), hsum]
  rfl

theorem inhabited_of_intersection? {r s m : Rect} (h : r.intersection? s = some m) : m.Inhabited := by
  unfold intersection? at h
  split at h
  · cases h
  · next hempty =>
      cases h
      exact isEmpty_eq_false_iff.1 (Bool.of_not_eq_true hempty)

/-- Rectangles that share out the cells of `r`, each cell to one of them. Some may be empty. -/
structure Tiles (r : Rect) (pieces : List Rect) : Prop where
  apart : pieces.Pairwise Apart
  exact : ∀ c, c ∈ r ↔ ∃ p ∈ pieces, c ∈ p

namespace Tiles

variable {r band : Rect} {pieces rest : List Rect}

theorem singleton (r : Rect) : r.Tiles [r] := ⟨List.pairwise_singleton .., by simp⟩

theorem sum_cellCount (h : r.Tiles pieces) : (pieces.map cellCount).sum = r.cellCount := by
  rw [← card_union h.apart, ← card_cover]
  congr 1
  ext p
  rw [mem_union, mem_cover, h.exact]

theorem filter (h : r.Tiles pieces) : r.Tiles (pieces.filter fun p => !p.isEmpty) := by
  refine ⟨h.apart.filter _, fun c => (h.exact c).trans ?_⟩
  constructor
  · rintro ⟨p, hp, hc⟩
    refine ⟨p, List.mem_filter.2 ⟨hp, ?_⟩, hc⟩
    rw [Bool.not_eq_true']
    by_contra hempty
    exact isEmpty_iff.1 (Bool.of_not_eq_false hempty) c hc
  · rintro ⟨p, hp, hc⟩
    exact ⟨p, (List.mem_filter.1 hp).1, hc⟩

/-- One of the rectangles is shared out further. -/
theorem graft (h : r.Tiles (band :: rest)) (hband : band.Tiles pieces) : r.Tiles (pieces ++ rest) := by
  obtain ⟨hfirst, hrest⟩ := List.pairwise_cons.1 h.apart
  refine ⟨List.pairwise_append.2 ⟨hband.apart, hrest, ?_⟩, fun c => (h.exact c).trans ?_⟩
  · intro p hp q hq c hc
    exact hfirst q hq c ((hband.exact c).2 ⟨p, hp, hc⟩)
  · simp only [List.mem_cons, List.mem_append, or_and_right, exists_or, exists_eq_left, hband.exact c]

theorem inside (h : r.Tiles pieces) {p : Rect} (hp : p ∈ pieces) {c : Cell} (hc : c ∈ p) : c ∈ r :=
  (h.exact c).2 ⟨p, hp, hc⟩

end Tiles

theorem tiles_remainder {r inner : Rect} (hinner : inner.Inhabited) (h : r.includes inner = true) :
    r.Tiles (inner :: r.remainder inner) := by
  obtain ⟨hy, hx⟩ := hinner
  have hfirst : (!inner.isEmpty) = true := by rw [isEmpty_eq_false_iff.2 ⟨hy, hx⟩]; rfl
  simp only [includes, Bool.and_eq_true, decide_eq_true_eq] at h
  have hparts : r.Tiles [inner, ⟨r.y0, r.x0, inner.y0, r.x1⟩, ⟨inner.y1, r.x0, r.y1, r.x1⟩,
      ⟨inner.y0, r.x0, inner.y1, inner.x0⟩, ⟨inner.y0, inner.x1, inner.y1, r.x1⟩] := by
    constructor
    · simp only [List.pairwise_cons, List.forall_mem_cons, List.not_mem_nil, false_implies, implies_true,
        and_true, List.Pairwise.nil, Apart, mem_iff]
      and_intros <;> intro c <;> omega
    · intro c
      simp only [List.mem_cons, List.not_mem_nil, or_false, exists_eq_or_imp, exists_eq_left, mem_iff]
      omega
  have hfilter := hparts.filter
  rwa [List.filter_cons, if_pos hfirst] at hfilter

theorem inhabited_of_remainder {r inner p : Rect} (hp : p ∈ r.remainder inner) : p.Inhabited := by
  have hempty := (List.mem_filter.1 hp).2
  rw [Bool.not_eq_true'] at hempty
  exact isEmpty_eq_false_iff.1 hempty

theorem area_eq_ok_iff {r : Rect} {n : Nat} :
    r.area = .ok n ↔ (r.y0 ≤ r.y1 ∧ r.x0 ≤ r.x1) ∧ n = r.cellCount := by
  simp only [area, height, width, bind_eq_ok_iff, Word.sub_eq_ok_iff, pure_eq_ok_iff, cellCount]
  constructor
  · rintro ⟨h, ⟨hy, rfl⟩, w, ⟨hx, rfl⟩, rfl⟩
    exact ⟨⟨hy, hx⟩, rfl⟩
  · rintro ⟨⟨hy, hx⟩, rfl⟩
    exact ⟨_, ⟨hy, rfl⟩, _, ⟨hx, rfl⟩, rfl⟩

theorem failsOnly_area {B : Prop} {r : Rect} (hr : r.Inhabited) : FailsOnly (Fault.Allowed B) r.area :=
  .of_eq_ok (area_eq_ok_iff.2 ⟨⟨hr.1.le, hr.2.le⟩, rfl⟩)

theorem length_cells (r : Rect) : r.cells.length = r.cellCount := by
  simp [cells, firstCells]

theorem cellAt_div_mod {r : Rect} {i : Nat} :
    (r.cellAt i).y - r.y0 = i / (r.x1 - r.x0) ∧ (r.cellAt i).x - r.x0 = i % (r.x1 - r.x0) := by
  exact ⟨Nat.add_sub_cancel_left .., Nat.add_sub_cancel_left ..⟩

theorem mem_of_mem_cells {r : Rect} {c : Cell} (h : c ∈ r.cells) : c ∈ r := by
  obtain ⟨i, hi, rfl⟩ := List.mem_map.1 h
  rw [List.mem_range, Nat.min_self] at hi
  have hwidth : 0 < r.x1 - r.x0 := Nat.pos_of_mul_pos_left (Nat.zero_lt_of_lt hi)
  have hy : i / (r.x1 - r.x0) < r.y1 - r.y0 := Nat.div_lt_of_lt_mul (Nat.mul_comm _ _ ▸ hi)
  have hx : i % (r.x1 - r.x0) < r.x1 - r.x0 := Nat.mod_lt _ hwidth
  exact mem_iff.2 ⟨Nat.le_add_right .., Nat.add_lt_of_lt_sub' hy, Nat.le_add_right ..,
    Nat.add_lt_of_lt_sub' hx⟩

theorem nodup_cells (r : Rect) : r.cells.Nodup := by
  refine List.nodup_range.map_on ?_
  intro i _ j _ heq
  obtain ⟨hiy, hix⟩ := cellAt_div_mod (r := r) (i := i)
  obtain ⟨hjy, hjx⟩ := cellAt_div_mod (r := r) (i := j)
  rw [heq] at hiy hix
  have hi := Nat.div_add_mod i (r.x1 - r.x0)
  have hj := Nat.div_add_mod j (r.x1 - r.x0)
  rw [← hiy, ← hix] at hi
  rw [← hjy, ← hjx] at hj
  omega

end Rect

end SurfaceFabric
