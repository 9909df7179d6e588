import SurfaceFabric.Proofs.Tiling.Accept

/-!
Two free segments become one. They are joined exactly if one lies against the other along the whole edge of both,
and each is then the only neighbour of the other there.
-/

namespace SurfaceFabric

variable {side : Side} {c : Cell}

namespace Rect

variable {r s : Rect}

theorem eq_of_edges (h : ∀ side, r.edge side = s.edge side) : r = s := by
  rw [show r = ⟨r.edge .above, r.edge .left, r.edge .below, r.edge .right⟩ from rfl, h, h, h, h]
  rfl

/-- The rows of a rectangle as seen from the left and right, or its columns as seen from above and below. -/
def band (r : Rect) : Side → Nat × Nat
  | .above | .below => (r.x0, r.x1)
  | .left | .right => (r.y0, r.y1)

@[simp] theorem band_opposite (r : Rect) (side : Side) : r.band side.opposite = r.band side := by
  cases side <;> rfl

/-- Whether `s` lies against `r` on a side, along the whole edge of both. -/
def Abuts (r : Rect) (side : Side) (s : Rect) : Prop :=
  s.edge side.opposite = r.edge side ∧ r.band side = s.band side

theorem Abuts.symm (h : r.Abuts side s) : s.Abuts side.opposite r := by
  refine ⟨?_, ?_⟩
  · rw [Side.opposite_opposite, h.1]
  · rw [band_opposite, band_opposite, h.2]

def hull (r s : Rect) : Rect := ⟨min r.y0 s.y0, min r.x0 s.x0, max r.y1 s.y1, max r.x1 s.x1⟩

theorem hull_comm (r s : Rect) : r.hull s = s.hull r := by
  simp only [hull, min_comm, max_comm]

theorem inhabited_hull (hr : r.Inhabited) : (r.hull s).Inhabited := by
  simp only [Inhabited, hull] at hr ⊢
  omega

theorem abuts_iff : r.Abuts side s ↔
    match side with
    | .above => s.y1 = r.y0 ∧ r.x0 = s.x0 ∧ r.x1 = s.x1
    | .below => s.y0 = r.y1 ∧ r.x0 = s.x0 ∧ r.x1 = s.x1
    | .left => s.x1 = r.x0 ∧ r.y0 = s.y0 ∧ r.y1 = s.y1
    | .right => s.x0 = r.x1 ∧ r.y0 = s.y0 ∧ r.y1 = s.y1 := by
  cases side <;> simp only [Abuts, edge, band, Side.opposite, Prod.mk.injEq]

theorem Abuts.mem_hull (h : r.Abuts side s) (hr : r.Inhabited) (hs : s.Inhabited) :
    c ∈ r.hull s ↔ c ∈ r ∨ c ∈ s := by
  simp only [Inhabited, mem_iff, hull] at hr hs ⊢
  cases side <;> have h := abuts_iff.1 h <;> omega

theorem Abuts.apart (h : r.Abuts side s) : r.Apart s := by
  intro c hr hs
  simp only [mem_iff] at hr hs
  cases side <;> have h := abuts_iff.1 h <;> omega

theorem Abuts.touches (h : r.Abuts side s) (hr : r.Inhabited) (hs : s.Inhabited) : r.Touches s side := by
  rw [touches_iff h.apart]
  have hbounds := hr
  simp only [Inhabited] at hbounds
  cases side <;> have h := abuts_iff.1 h <;> exact ⟨by omega, hr, hs, h.1⟩

theorem Abuts.band_hull (h : r.Abuts side s) : (r.hull s).band side = r.band side := by
  cases side <;> have h := abuts_iff.1 h <;> simp only [hull, band, Prod.mk.injEq] <;> omega

/-- What lies beyond the edge lies in the rectangle there. -/
theorem Abuts.mem_of_nextTo (h : r.Abuts side s) (hs : s.Inhabited) {d : Cell} (hc : c ∈ r) (hd : d ∉ r)
    (hnext : c.NextTo side d) : d ∈ s := by
  simp only [Inhabited, mem_iff] at hs hc hd ⊢
  cases side <;> have h := abuts_iff.1 h <;> simp only [Cell.NextTo] at hnext <;> omega

end Rect

namespace Tiling

variable {t t' : Tiling} {e : Edit}

/-- The only neighbour of a segment on a side. -/
theorem WellTiled.neighbours_of_abuts (h : t.WellTiled) {s u : Segment} (hs : s ∈ t.segments) (hu : u ∈ t.segments)
    (habuts : s.rect.Abuts side u.rect) : s.neighbours side = [u.id] := by
  have hmem (n : Nat) : n ∈ s.neighbours side ↔ n ∈ [u.id] := by
    rw [h.linked s hs, List.mem_singleton]
    constructor
    · rintro ⟨v, hv, rfl, hne, d, hd, d', hd', hnext⟩
      have hout : d' ∉ s.rect := h.apart v hv s hs hne.symm d' hd'
      exact congrArg Segment.id (h.eq_of_mem hv hu hd' (habuts.mem_of_nextTo (h.inhabited u hu) hd hout hnext))
    · rintro rfl
      have htouch := habuts.touches (h.inhabited s hs) (h.inhabited u hu)
      refine ⟨u, hu, rfl, fun hid => ?_, htouch⟩
      obtain ⟨d, hd, -⟩ := htouch
      exact habuts.apart d hd (h.eq_of_id_eq hs hu hid ▸ hd)
  have hnodup : (s.neighbours side).Nodup := (h.links_ascending s hs side).imp fun hlt => Nat.ne_of_lt hlt
  exact List.perm_singleton.1 ((List.perm_ext_iff_of_nodup hnodup (List.nodup_singleton _)).2 hmem)

/-! ### Joining two segments -/

/-- Rectangles are joined exactly if one lies against the other on a side, to the rectangle around both. -/
structure JoinsOn (side : Side) (join? : Rect → Rect → Option Rect) : Prop where
  joined : ∀ r s, r.Inhabited → s.Inhabited → r.Abuts side s ∨ s.Abuts side r → join? r s = some (r.hull s)
  refused : ∀ r s, ¬(r.Abuts side s ∨ s.Abuts side r) → join? r s = none

theorem joinsOn_besides : JoinsOn .right besides? := by
  constructor
  · rintro r s ⟨hry, hrx⟩ ⟨hsy, hsx⟩ habuts
    rw [Rect.abuts_iff, Rect.abuts_iff] at habuts
    rcases habuts with ⟨hx, hy0, hy1⟩ | ⟨hx, hy0, hy1⟩
    · rw [besides?, if_pos hx.symm, if_pos ⟨hy0, hy1⟩]
      simp only [Rect.hull, Option.some.injEq, Rect.mk.injEq]
      omega
    · rw [besides?, if_neg (by omega), if_pos hx.symm, if_pos ⟨hy0, hy1⟩]
      simp only [Rect.hull, Option.some.injEq, Rect.mk.injEq]
      omega
  · intro r s hnot
    rw [Rect.abuts_iff, Rect.abuts_iff] at hnot
    unfold besides?
    split_ifs <;> first | rfl | omega

theorem joinsOn_stacked : JoinsOn .below stacked? := by
  constructor
  · rintro r s ⟨hry, hrx⟩ ⟨hsy, hsx⟩ habuts
    rw [Rect.abuts_iff, Rect.abuts_iff] at habuts
    rcases habuts with ⟨hy, hx0, hx1⟩ | ⟨hy, hx0, hx1⟩
    · rw [stacked?, if_pos hy.symm, if_pos ⟨hx0, hx1⟩]
      simp only [Rect.hull, Option.some.injEq, Rect.mk.injEq]
      omega
    · rw [stacked?, if_neg (by omega), if_pos hy.symm, if_pos ⟨hx0, hx1⟩]
      simp only [Rect.hull, Option.some.injEq, Rect.mk.injEq]
      omega
  · intro r s hnot
    rw [Rect.abuts_iff, Rect.abuts_iff] at hnot
    unfold stacked?
    split_ifs <;> first | rfl | omega

def Joinable (t : Tiling) (side : Side) (a b : Nat) : Prop :=
  ∃ s ∈ t.segments, ∃ u ∈ t.segments, (s.id = a ∧ u.id = b) ∧ (s.isFree = true ∧ u.isFree = true) ∧
    (s.rect.Abuts side u.rect ∨ u.rect.Abuts side s.rect)

theorem WellTiled.freePair?_eq_some_iff (h : t.WellTiled) {a b : Nat} {r r' : Rect} :
    t.freePair? a b = some (r, r') ↔ ∃ s ∈ t.segments, ∃ u ∈ t.segments, (s.id = a ∧ u.id = b) ∧ a ≠ b ∧
      (s.isFree = true ∧ u.isFree = true) ∧ s.rect = r ∧ u.rect = r' := by
  simp only [freePair?, Option.bind_eq_bind, Option.bind_eq_some_iff, segment?_eq_some_iff h.ascending,
    Option.ite_none_right_eq_some, Option.some.injEq, Prod.mk.injEq]
  constructor
  · rintro ⟨s, ⟨hs, hsid⟩, u, ⟨hu, huid⟩, ⟨hne, hfree⟩, hrects⟩
    exact ⟨s, hs, u, hu, ⟨hsid, huid⟩, hne, hfree, hrects⟩
  · rintro ⟨s, hs, u, hu, ⟨hsid, huid⟩, hne, hfree, hrects⟩
    exact ⟨s, ⟨hs, hsid⟩, u, ⟨hu, huid⟩, ⟨hne, hfree⟩, hrects⟩

variable {join? : Rect → Rect → Option Rect} {a b : Nat}

theorem WellTiled.mergePair_of_not_joinable (h : t.WellTiled) (hjoin : JoinsOn side join?)
    (hnot : ¬t.Joinable side a b) : t.mergePair join? a b = .ok none := by
  unfold Tiling.mergePair
  split
  · rfl
  · next r r' hpair =>
      obtain ⟨s, hs, u, hu, hids, -, hfree, rfl, rfl⟩ := h.freePair?_eq_some_iff.1 hpair
      rw [hjoin.refused _ _ fun habuts => hnot ⟨s, hs, u, hu, hids, hfree, habuts⟩]
      rfl

section Pair

variable {s u : Segment} (h : t.WellTiled) (hs : s ∈ t.segments) (hu : u ∈ t.segments)
  (habuts : s.rect.Abuts side u.rect ∨ u.rect.Abuts side s.rect)

include h hs hu habuts

theorem WellTiled.ne_of_abuts : s.id ≠ u.id := by
  intro hid
  obtain rfl := h.eq_of_id_eq hs hu hid
  obtain ⟨d, hd⟩ := Rect.inhabited_iff.1 (h.inhabited s hs)
  exact (or_self_iff.1 habuts).apart d hd hd

theorem WellTiled.mem_hull : c ∈ s.rect.hull u.rect ↔ c ∈ s.rect ∨ c ∈ u.rect := by
  rcases habuts with habuts | habuts
  · exact habuts.mem_hull (h.inhabited s hs) (h.inhabited u hu)
  · rw [Rect.hull_comm, or_comm]
    exact habuts.mem_hull (h.inhabited u hu) (h.inhabited s hs)

theorem WellTiled.replaces_pair : t.Replaces ⟨[s.id, u.id], [.free (s.rect.hull u.rect)]⟩ := by
  refine ⟨List.nodup_cons.2 ⟨?_, List.nodup_singleton _⟩, ?_, ?_, List.pairwise_singleton .., fun c => ?_⟩
  · simpa using h.ne_of_abuts hs hu habuts
  · simp only [List.mem_cons, List.not_mem_nil, or_false]
    rintro id (rfl | rfl)
    · exact ⟨s, hs, rfl⟩
    · exact ⟨u, hu, rfl⟩
  · simp only [List.mem_singleton, forall_eq]
    exact Rect.inhabited_hull (h.inhabited s hs)
  · simp only [exists_eq_left, List.mem_cons, List.not_mem_nil, or_false]
    refine (h.mem_hull hs hu habuts).trans ⟨?_, ?_⟩
    · rintro (hc | hc)
      · exact ⟨s, hs, .inl rfl, hc⟩
      · exact ⟨u, hu, .inr rfl, hc⟩
    · rintro ⟨v, hv, hid | hid, hc⟩
      · exact .inl (h.eq_of_id_eq hv hs hid ▸ hc)
      · exact .inr (h.eq_of_id_eq hv hu hid ▸ hc)

end Pair

/-- Two free segments that lie against each other become one, if there is a number for it. -/
theorem WordTiled.mergePair_eq (h : t.WordTiled) (hjoin : JoinsOn side join?) {s u : Segment}
    (hs : s ∈ t.segments) (hu : u ∈ t.segments) (hsfree : s.isFree = true) (hufree : u.isFree = true)
    (habuts : s.rect.Abuts side u.rect ∨ u.rect.Abuts side s.rect) : t.mergePair join? s.id u.id =
      if t.nextId + 1 ≤ Word.top then
        .ok (some (t.nextId, t.replace ⟨[s.id, u.id], [.free (s.rect.hull u.rect)]⟩ (t.nextId + 1)))
      else .error .idsExhausted := by
  have hpair : t.freePair? s.id u.id = some (s.rect, u.rect) := h.freePair?_eq_some_iff.2
    ⟨s, hs, u, hu, ⟨rfl, rfl⟩, h.ne_of_abuts hs hu habuts, ⟨hsfree, hufree⟩, rfl, rfl⟩
  unfold Tiling.mergePair
  simp only [hpair, hjoin.joined _ _ (h.inhabited s hs) (h.inhabited u hu) habuts]
  have he : t.Replaces ⟨[s.id, u.id], [s.rect.hull u.rect].map Piece.free⟩ := h.replaces_pair hs hu habuts
  exact h.mergeInto_eq he

end Tiling

end SurfaceFabric
