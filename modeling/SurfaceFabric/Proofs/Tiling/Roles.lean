import SurfaceFabric.Proofs.Tiling.Operation

/-!
What cells are used for. An edit changes the cells of the segments it removes and no others: they take
the roles of the pieces that cover them. Allocating a box changes exactly its cells, and joining free
segments changes none.
-/

namespace SurfaceFabric.Tiling

variable {t t' : Tiling} {e : Edit}

theorem WellTiled.at?_eq_some_iff (h : t.WellTiled) {c : Cell} {s : Segment} :
    t.at? c = some s ↔ s ∈ t.segments ∧ c ∈ s.rect := by
  constructor
  · intro hat
    exact ⟨List.mem_of_find?_eq_some hat, at?_contains hat⟩
  · rintro ⟨hs, hc⟩
    obtain ⟨u, hu⟩ := Option.isSome_iff_exists.1 (show (t.at? c).isSome = true from
      List.find?_isSome.2 ⟨s, hs, hc⟩)
    rw [hu, h.eq_of_mem hs (List.mem_of_find?_eq_some hu) hc (at?_contains hu)]

theorem WellTiled.roleAt?_eq_some_iff (h : t.WellTiled) {c : Cell} {role : Role} :
    t.roleAt? c = some role ↔ ∃ s ∈ t.segments, c ∈ s.rect ∧ s.role = role := by
  simp only [roleAt?, Option.map_eq_some_iff, h.at?_eq_some_iff, and_assoc]

theorem WellTiled.roleAt?_eq (h : t.WellTiled) {c : Cell} {s : Segment} (hs : s ∈ t.segments)
    (hc : c ∈ s.rect) : t.roleAt? c = some s.role :=
  h.roleAt?_eq_some_iff.2 ⟨s, hs, hc, rfl⟩

theorem WellTiled.roleAt?_eq_none_iff (h : t.WellTiled) {c : Cell} :
    t.roleAt? c = none ↔ c ∉ t.grid := by
  constructor
  · intro hnone hc
    obtain ⟨s, hs, hcs⟩ := h.covered c hc
    rw [h.roleAt?_eq hs hcs] at hnone
    cases hnone
  · intro hc
    rcases hrole : t.roleAt? c with _ | role
    · rfl
    · obtain ⟨s, hs, hcs, -⟩ := h.roleAt?_eq_some_iff.1 hrole
      exact absurd (h.bounded s hs c hcs) hc

theorem isRouteAt_iff {c : Cell} :
    t.isRouteAt c = true ↔ ∃ role, t.roleAt? c = some role ∧ role.isRoute = true := by
  unfold isRouteAt
  cases t.roleAt? c with
  | none => simp
  | some role => simp

@[simp] theorem relinked_role (t : Tiling) (e : Edit) (s : Segment) :
    (t.relinked e s).role = s.role := by
  unfold relinked
  split <;> rfl

@[simp] theorem linkedAnew_role (t : Tiling) (e : Edit) (s : Segment) :
    (t.linkedAnew e s).role = s.role := rfl

theorem exists_mem_fresh (start : Nat) {pieces : List Piece} {p : Piece} (h : p ∈ pieces) :
    ∃ n, Segment.isolated n p ∈ fresh start pieces := by
  induction pieces generalizing start with
  | nil => simp at h
  | cons q rest ih =>
      rcases List.mem_cons.1 h with rfl | h
      · exact ⟨start, by simp [fresh]⟩
      · obtain ⟨n, hn⟩ := ih (start + 1) h
        exact ⟨n, List.mem_cons_of_mem _ hn⟩

structure Recast (t : Tiling) (removed : List Nat) (added : List Piece) (t' : Tiling) : Prop where
  wellTiled : t'.WellTiled
  grid : t'.grid = t.grid
  outside : ∀ c, (∀ s ∈ t.segments, s.id ∈ removed → c ∉ s.rect) → t'.roleAt? c = t.roleAt? c
  made : ∀ p ∈ added, ∃ s ∈ t'.segments, s.rect = p.rect ∧ s.role = p.role
  exact : ∀ c, (∃ p ∈ added, c ∈ p.rect) ↔ ∃ s ∈ t.segments, s.id ∈ removed ∧ c ∈ s.rect

theorem Recast.inside {removed : List Nat} {added : List Piece} (h : Recast t removed added t')
    {p : Piece} (hp : p ∈ added) {c : Cell} (hc : c ∈ p.rect) : t'.roleAt? c = some p.role := by
  obtain ⟨s, hs, hrect, hrole⟩ := h.made p hp
  rw [h.wellTiled.roleAt?_eq hs (hrect ▸ hc), hrole]

theorem WellTiled.recast (h : t.WellTiled) {ids : List Nat} (hcommit : t.commit e = .ok (ids, t')) :
    Recast t e.removed e.added t' := by
  have hwell := h.commit hcommit
  obtain ⟨hcheck, -, -, rfl⟩ := commit_eq_ok_iff.1 hcommit
  have he := replaces_of_checkEdit h.ascending h.apart hcheck
  refine ⟨hwell, rfl, ?_, ?_, he.exact⟩
  · intro c houtside
    rcases hold : t.roleAt? c with _ | role
    · exact hwell.roleAt?_eq_none_iff.2 (h.roleAt?_eq_none_iff.1 hold)
    · obtain ⟨s, hs, hc, rfl⟩ := h.roleAt?_eq_some_iff.1 hold
      have hkept : s.id ∉ e.removed := fun hremoved => houtside s hs hremoved hc
      refine hwell.roleAt?_eq_some_iff.2 ⟨_, mem_replace.2 (.inl ⟨s, hs, hkept, rfl⟩), ?_, ?_⟩
      · rwa [relinked_rect]
      · rw [relinked_role]
  · intro p hp
    obtain ⟨n, hn⟩ := exists_mem_fresh t.nextId hp
    exact ⟨_, mem_replace.2 (.inr ⟨_, hn, rfl⟩), rfl, linkedAnew_role t e _⟩

structure SameRoles (t t' : Tiling) : Prop where
  wellTiled : t'.WellTiled
  grid : t'.grid = t.grid
  roleAt? : ∀ c, t'.roleAt? c = t.roleAt? c

theorem SameRoles.refl (h : t.WellTiled) : SameRoles t t := ⟨h, rfl, fun _ => rfl⟩

theorem SameRoles.trans {u : Tiling} (h : SameRoles t u) (h' : SameRoles u t') : SameRoles t t' :=
  ⟨h'.wellTiled, h'.grid.trans h.grid, fun c => (h'.roleAt? c).trans (h.roleAt? c)⟩

/-- Replacing free segments by free pieces changes no cell. -/
theorem Recast.sameRoles {removed : List Nat} {added : List Piece} (h : t.WellTiled)
    (hrecast : Recast t removed added t')
    (hremoved : ∀ s ∈ t.segments, s.id ∈ removed → s.role = .unassigned)
    (hadded : ∀ p ∈ added, p.role = .unassigned) : SameRoles t t' := by
  refine ⟨hrecast.wellTiled, hrecast.grid, fun c => ?_⟩
  by_cases hc : ∃ s ∈ t.segments, s.id ∈ removed ∧ c ∈ s.rect
  · obtain ⟨p, hp, hcp⟩ := (hrecast.exact c).2 hc
    obtain ⟨s, hs, hid, hcs⟩ := hc
    rw [hrecast.inside hp hcp, h.roleAt?_eq hs hcs, hadded p hp, hremoved s hs hid]
  · refine hrecast.outside c fun s hs hid hcs => hc ⟨s, hs, hid, hcs⟩

theorem allocated_of_isFree {s : Segment} (h : s.isFree = true) : s.allocated = false := by
  simp only [Segment.isFree, Bool.and_eq_true, Bool.not_eq_true'] at h
  exact h.1

theorem role_of_isFree {s : Segment} (h : s.isFree = true) : s.role = .unassigned := by
  simp only [Segment.isFree, Bool.and_eq_true, beq_iff_eq] at h
  exact h.2

theorem mem_freeSegments {s : Segment} :
    s ∈ t.freeSegments ↔ s ∈ t.segments ∧ s.isFree = true := by
  rw [freeSegments, mem_sortBy, List.mem_filter]

/-- An edit of a single segment. -/
theorem WellTiled.recast_single (h : t.WellTiled) {s : Segment} {pieces : List Piece} {ids : List Nat}
    (hs : s ∈ t.segments) (hcommit : t.commit ⟨[s.id], pieces⟩ = .ok (ids, t')) :
    Recast t [s.id] pieces t' ∧ (∀ c, c ∉ s.rect → t'.roleAt? c = t.roleAt? c) ∧
      ∀ c, (∃ p ∈ pieces, c ∈ p.rect) ↔ c ∈ s.rect := by
  have hrecast := h.recast hcommit
  have honly (u : Segment) (hu : u ∈ t.segments) (hid : u.id ∈ [s.id]) : u = s :=
    h.eq_of_id_eq hu hs (List.mem_singleton.1 hid)
  refine ⟨hrecast, ?_, ?_⟩
  · intro c hc
    refine hrecast.outside c fun u hu hid => ?_
    rwa [honly u hu hid]
  · intro c
    refine (hrecast.exact c).trans ⟨?_, fun hc => ⟨s, hs, by simp, hc⟩⟩
    rintro ⟨u, hu, hid, hc⟩
    rwa [honly u hu hid] at hc

/-- Allocating a box changes its cells only. -/
theorem WellTiled.allocAt (h : t.WellTiled) {s : Segment} {n : Nat} {b : Box} {role : Role}
    (hs : s ∈ t.segments) (halloc : t.allocAt s.id b role = .ok (some (n, t'))) :
    ∃ inner, Rect.ofBox b = .ok inner ∧ t'.WellTiled ∧ t'.grid = t.grid ∧
      (∃ u ∈ t'.segments, u.rect = inner ∧ u.role = role) ∧
        ∀ c, c ∉ inner → t'.roleAt? c = t.roleAt? c := by
  obtain ⟨e, later, hsplit, hcommit⟩ := allocAt_eq_some halloc
  obtain ⟨s', inner, hs', -, hinner, -, rfl⟩ := splitEdit_eq_ok hsplit
  rw [segment?_eq_some_iff h.ascending] at hs'
  obtain rfl := h.eq_of_id_eq hs'.1 hs hs'.2
  obtain ⟨hrecast, houtside, hexact⟩ := h.recast_single hs hcommit
  refine ⟨inner, hinner, hrecast.wellTiled, hrecast.grid, hrecast.made ⟨inner, role, true⟩ (by simp), ?_⟩
  intro c hc
  by_cases hcs : c ∈ s'.rect
  · -- the rest of the segment keeps its role
    obtain ⟨p, hp, hcp⟩ := (hexact c).2 hcs
    rcases List.mem_cons.1 hp with rfl | hrest
    · exact absurd hcp hc
    · obtain ⟨r, -, rfl⟩ := List.mem_map.1 hrest
      rw [hrecast.inside hp hcp, h.roleAt?_eq hs hcs]
  · exact houtside c hcs

theorem WellTiled.release (h : t.WellTiled) {s : Segment} (hs : s ∈ t.segments)
    (hrelease : t.release s.id = .ok t') : t'.WellTiled ∧ t'.grid = t.grid ∧
      (∃ u ∈ t'.segments, u.id = s.id ∧ u.rect = s.rect ∧ u.isFree = true) ∧
        ∀ c, c ∉ s.rect → t'.roleAt? c = t.roleAt? c := by
  have hwell := h.setRole hrelease
  obtain ⟨-, rfl⟩ := setRole_eq_ok_iff.1 hrelease
  refine ⟨hwell, rfl, ⟨_, List.mem_map.2 ⟨s, hs, if_pos rfl⟩, rfl, rfl, rfl⟩, ?_⟩
  intro c hc
  rcases hold : t.roleAt? c with _ | role
  · exact hwell.roleAt?_eq_none_iff.2 (h.roleAt?_eq_none_iff.1 hold)
  · obtain ⟨u, hu, hcu, rfl⟩ := h.roleAt?_eq_some_iff.1 hold
    have hne : u.id ≠ s.id := by
      rintro hid
      rw [h.eq_of_id_eq hu hs hid] at hcu
      exact hc hcu
    exact hwell.roleAt?_eq (List.mem_map.2 ⟨u, hu, if_neg hne⟩) hcu

def Regroups (t t' : Tiling) : Prop :=
  ∃ e ids, t.commit e = .ok (ids, t') ∧ (∀ s ∈ t.segments, s.id ∈ e.removed → s.isFree = true) ∧
    ∀ p ∈ e.added, p.role = .unassigned

abbrev Regrouped : Tiling → Tiling → Prop := Relation.ReflTransGen Regroups

theorem Regrouped.changes (h : Regrouped t t') : Changes t t' := by
  refine Relation.ReflTransGen.mono ?_ _ _ h
  rintro u v ⟨e, ids, hcommit, -, -⟩
  exact .commit hcommit

/-- Joining and cutting free segments changes what no cell is used for. -/
theorem Regrouped.sameRoles (h : Regrouped t t') (hwell : t.WellTiled) : SameRoles t t' := by
  induction h with
  | refl => exact .refl hwell
  | tail _ hstep ih =>
      obtain ⟨e, ids, hcommit, hremoved, hadded⟩ := hstep
      apply ih.trans
      exact (ih.wellTiled.recast hcommit).sameRoles ih.wellTiled
        (fun s hs hid => role_of_isFree (hremoved s hs hid)) hadded

theorem regroups_of_mergeInto {removed : List Nat} {merged : Rect} {leftovers : List Rect} {n : Nat}
    (hfree : ∀ s ∈ t.segments, s.id ∈ removed → s.isFree = true)
    (h : t.mergeInto removed merged leftovers = .ok (some (n, t'))) : Regroups t t' := by
  obtain ⟨later, hcommit⟩ := mergeInto_eq_some h
  refine ⟨_, _, hcommit, hfree, ?_⟩
  intro p hp
  obtain ⟨r, -, rfl⟩ := List.mem_map.1 hp
  rfl

theorem WellTiled.isFree_of_segment? (h : t.WellTiled) {s u : Segment} (hu : t.segment? s.id = some u)
    (hfree : u.isFree = true) (hs : s ∈ t.segments) : s.isFree = true := by
  obtain ⟨hmem, hid⟩ := (segment?_eq_some_iff h.ascending).1 hu
  rwa [← h.eq_of_id_eq hmem hs hid]

theorem WellTiled.isFree_of_freePair? (h : t.WellTiled) {a b : Nat} {r s : Rect}
    (hpair : t.freePair? a b = some (r, s)) : ∀ u ∈ t.segments, u.id ∈ [a, b] → u.isFree = true := by
  simp only [freePair?, Option.bind_eq_bind, Option.bind_eq_some_iff] at hpair
  obtain ⟨u, hu, v, hv, hpair⟩ := hpair
  split at hpair
  · next hfree =>
      intro w hw hid
      simp only [List.mem_cons, List.not_mem_nil, or_false] at hid
      rcases hid with rfl | rfl
      · exact h.isFree_of_segment? hu hfree.2.1 hw
      · exact h.isFree_of_segment? hv hfree.2.2 hw
  · cases hpair

theorem WellTiled.mergePair (h : t.WellTiled) {join? : Rect → Rect → Option Rect} {a b n : Nat}
    (hmerge : t.mergePair join? a b = .ok (some (n, t'))) : Regroups t t' := by
  obtain ⟨r, s, merged, hpair, -, hmerge⟩ := mergePair_eq_some hmerge
  exact regroups_of_mergeInto (h.isFree_of_freePair? hpair) hmerge

theorem freeRects?_eq_some {ids : List Nat} {rects : List Rect} (h : t.freeRects? ids = some rects) :
    ∃ segments : List Segment, segments.map Segment.id = ids ∧ segments.map Segment.rect = rects ∧
      ∀ s ∈ segments, s ∈ t.segments ∧ s.isFree = true := by
  induction ids generalizing rects with
  | nil => exact ⟨[], rfl, Option.some.inj h, by simp⟩
  | cons first rest ih =>
      simp only [freeRects?, Option.bind_eq_bind, Option.bind_eq_some_iff] at h
      obtain ⟨s, hs, h⟩ := h
      split at h
      · next hfree =>
          obtain ⟨later, hlater, heq⟩ := Option.bind_eq_some_iff.1 h
          obtain ⟨segments, rfl, rfl, hsegments⟩ := ih hlater
          obtain ⟨hmem, hid⟩ := mem_of_segment? hs
          refine ⟨s :: segments, ?_, Option.some.inj heq, List.forall_mem_cons.2 ⟨⟨hmem, hfree⟩, hsegments⟩⟩
          rw [List.map_cons, hid]
      · cases h

/-- A free segment and its free neighbours on a side. -/
theorem WellTiled.isFree_of_freeRects? (h : t.WellTiled) {id : Nat} {s : Segment} {ids : List Nat}
    {rects : List Rect} (hs : t.segment? id = some s) (hfree : s.isFree = true)
    (hrects : t.freeRects? ids = some rects) : ∀ u ∈ t.segments, u.id ∈ id :: ids → u.isFree = true := by
  intro u hu hid
  rcases List.mem_cons.1 hid with rfl | hid
  · exact h.isFree_of_segment? hs hfree hu
  · obtain ⟨segments, hids, -, hsegments⟩ := freeRects?_eq_some hrects
    obtain ⟨v, hv, heq⟩ := List.mem_map.1 (hids ▸ hid)
    obtain ⟨hmem, hvfree⟩ := hsegments v hv
    rwa [← h.eq_of_id_eq hmem hu heq]

theorem WellTiled.growDown (h : t.WellTiled) {id n : Nat}
    (hgrow : t.growDown id = .ok (some (n, t'))) : Regroups t t' := by
  obtain ⟨s, rects, merged, leftovers, hs, hfree, hrects, hmerge⟩ := Growth.run_eq_some (g := .down) hgrow
  exact regroups_of_mergeInto (h.isFree_of_freeRects? hs hfree hrects) hmerge

theorem WellTiled.mergeAligned (h : t.WellTiled) {links : Segment → List Nat}
    {join? : Rect → Rect → Option Rect} {limit count : Nat}
    (hmerge : mergeAligned links join? limit t = .ok (count, t')) : Regrouped t t' := by
  have hpairs := mergePairs_of_mergeAligned hmerge
  clear hmerge
  induction hpairs with
  | refl => exact .refl
  | tail _ hpair ih =>
      obtain ⟨a, b, n, hpair⟩ := hpair
      exact ih.tail ((h.changes ih.changes).mergePair hpair)

theorem WellTiled.mergeFree (h : t.WellTiled) (hmerge : t.mergeFree = .ok t') : Regrouped t t' := by
  obtain ⟨⟨n, u⟩, hcolumns, hmerge⟩ := bind_eq_ok_iff.1 hmerge
  obtain ⟨⟨m, v⟩, hrows, hmerge⟩ := bind_eq_ok_iff.1 hmerge
  cases hmerge
  have hu := h.mergeAligned hcolumns
  exact hu.trans ((h.changes hu.changes).mergeAligned hrows)

theorem WellTiled.growFully (h : t.WellTiled) {n id : Nat} (hgrow : growFully n id t = .ok t') :
    Regrouped t t' := by
  induction n generalizing t id with
  | zero =>
      cases hgrow
      exact .refl
  | succ n ih =>
      obtain ⟨found, hdown, hgrow⟩ := bind_eq_ok_iff.1 hgrow
      cases found with
      | none =>
          cases hgrow
          exact .refl
      | some grown =>
          have hu : Regrouped t grown.2 := .single (h.growDown hdown)
          exact hu.trans (ih (h.changes hu.changes) hgrow)

theorem WellTiled.growEach {segments : List Segment} (h : t.WellTiled)
    (hgrow : segments.foldlM (fun t s => Tiling.growFully t.height s.id t) t = .ok t') : Regrouped t t' := by
  induction segments generalizing t with
  | nil =>
      cases hgrow
      exact .refl
  | cons s rest ih =>
      rw [List.foldlM_cons] at hgrow
      obtain ⟨u, hu, hrest⟩ := bind_eq_ok_iff.1 hgrow
      have hregrouped := h.growFully hu
      exact hregrouped.trans (ih (h.changes hregrouped.changes) hrest)

theorem WellTiled.growAll (h : t.WellTiled) (hgrow : t.growAll = .ok t') : Regrouped t t' := by
  obtain ⟨grown, heach, hgrow⟩ := bind_eq_ok_iff.1 hgrow
  obtain ⟨⟨n, u⟩, hrows, hgrow⟩ := bind_eq_ok_iff.1 hgrow
  cases hgrow
  have hgrown := h.growEach heach
  exact hgrown.trans ((h.changes hgrown.changes).mergeAligned hrows)

end SurfaceFabric.Tiling
