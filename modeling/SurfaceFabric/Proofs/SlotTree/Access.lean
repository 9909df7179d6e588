import SurfaceFabric.SlotTree.Access
import SurfaceFabric.Proofs.Classes
import SurfaceFabric.Proofs.Placement.Served

/-!
Access graphs of tilings whose routing serves them. Steps between routing cells become links between
routing segments, and the routing above or below a slot a link to its segment. So one component holds
all routing and all slots, and it is the main one.
-/

namespace SurfaceFabric

variable {t : Tiling} {s u : Segment}

theorem Role.connects_comm (a b : Role) (vertical : Bool) :
    a.connects b vertical = b.connects a vertical := by
  unfold Role.connects
  cases a.isRoute <;> cases b.isRoute <;> rfl

theorem Side.isVertical_opposite (side : Side) : side.opposite.isVertical = side.isVertical := by
  cases side <;> rfl

def Segment.Linked (s u : Segment) : Prop :=
  ∃ side, s.rect.Touches u.rect side ∧ s.role.connects u.role side.isVertical = true

theorem Segment.Linked.symm (h : s.Linked u) : u.Linked s := by
  obtain ⟨side, htouch, hconnects⟩ := h
  refine ⟨side.opposite, htouch.symm, ?_⟩
  rwa [Role.connects_comm, side.isVertical_opposite]

def Tiling.RouteJoined (t : Tiling) : Segment → Segment → Prop :=
  Relation.ReflTransGen fun s u => s.Linked u ∧ u ∈ t.segments ∧ u.role.isRoute = true

theorem Segment.mem_allNeighbours {side : Side} {n : Nat} :
    (side, n) ∈ s.allNeighbours ↔ n ∈ s.neighbours side := by
  simp only [allNeighbours, List.mem_flatMap, List.mem_map, Prod.mk.injEq]
  constructor
  · rintro ⟨side', -, n', hn, rfl, rfl⟩
    exact hn
  · intro hn
    exact ⟨side, by cases side <;> decide, n, hn, rfl, rfl⟩

namespace AccessGraph

theorem mem_vertices : s ∈ (ofTiling t).vertices ↔
    s ∈ t.segments ∧ (s.role.isRoute = true ∨ s.role.isTerminal = true) := by
  simp [ofTiling, List.mem_filter]

theorem vertices_ascending (h : t.WellTiled) :
    (ofTiling t).vertices.Pairwise fun s u => s.id < u.id := h.ascending.filter _

theorem eq_of_id_eq (h : t.WellTiled) (hs : s ∈ (ofTiling t).vertices) (hu : u ∈ (ofTiling t).vertices)
    (heq : s.id = u.id) : s = u :=
  Segment.eq_of_id_eq (vertices_ascending h) hs hu heq

theorem find?_vertices (h : t.WellTiled) {n : Nat} :
    ((ofTiling t).vertices.find? fun u => u.id == n) = some u ↔
      u ∈ (ofTiling t).vertices ∧ u.id = n := by
  constructor
  · intro hfind
    exact ⟨List.mem_of_find?_eq_some hfind, by simpa using List.find?_some hfind⟩
  · rintro ⟨hu, rfl⟩
    cases hfind : (ofTiling t).vertices.find? fun v => v.id == u.id with
    | none =>
        have := List.find?_eq_none.1 hfind u hu
        simp at this
    | some v =>
        have hv := List.mem_of_find?_eq_some hfind
        have hid : v.id = u.id := by simpa using List.find?_some hfind
        rw [eq_of_id_eq h hv hu hid]

theorem mem_edges (h : t.WellTiled) {a b : Nat} : (a, b) ∈ (ofTiling t).edges ↔
    a < b ∧ ∃ s ∈ (ofTiling t).vertices, ∃ u ∈ (ofTiling t).vertices,
      s.id = a ∧ u.id = b ∧ s.Linked u := by
  have hedges : (ofTiling t).edges =
      (ofTiling t).vertices.flatMap (edgesFrom (ofTiling t).vertices) := rfl
  rw [hedges, List.mem_flatMap]
  constructor
  · rintro ⟨s, hs, hab⟩
    obtain ⟨⟨side, n⟩, hn, hsome⟩ := List.mem_filterMap.1 hab
    rw [Segment.mem_allNeighbours] at hn
    cases hu : (ofTiling t).vertices.find? fun u => u.id == n with
    | none => simp [hu] at hsome
    | some u =>
        simp only [hu, Option.bind_eq_bind, Option.bind_some] at hsome
        split at hsome
        · next hcond =>
            cases hsome
            obtain ⟨hmem, rfl⟩ := (find?_vertices h).1 hu
            obtain ⟨v, hv, hid, -, htouch⟩ := (h.linked s (mem_vertices.1 hs).1 side u.id).1 hn
            obtain rfl := h.eq_of_id_eq hv (mem_vertices.1 hmem).1 hid
            exact ⟨hcond.1, s, hs, v, hmem, rfl, rfl, side, htouch, hcond.2⟩
        · cases hsome
  · rintro ⟨hlt, s, hs, u, hu, rfl, rfl, side, htouch, hconnects⟩
    refine ⟨s, hs, List.mem_filterMap.2 ⟨(side, u.id), ?_, ?_⟩⟩
    · rw [Segment.mem_allNeighbours, h.linked s (mem_vertices.1 hs).1]
      exact ⟨u, (mem_vertices.1 hu).1, rfl, by omega, htouch⟩
    · simp [(find?_vertices h).2 ⟨hu, rfl⟩, hlt, hconnects]

theorem mem_neighbours (h : t.WellTiled) (hs : s ∈ (ofTiling t).vertices)
    (hu : u ∈ (ofTiling t).vertices) (hne : s ≠ u) (hlinked : s.Linked u) :
    u.id ∈ (ofTiling t).neighbours s.id := by
  have hid : s.id ≠ u.id := fun heq => hne (eq_of_id_eq h hs hu heq)
  rcases Nat.lt_or_gt_of_ne hid with hlt | hgt
  · refine List.mem_filterMap.2 ⟨(s.id, u.id), (mem_edges h).2 ⟨hlt, s, hs, u, hu, rfl, rfl, hlinked⟩, ?_⟩
    simp
  · refine List.mem_filterMap.2
      ⟨(u.id, s.id), (mem_edges h).2 ⟨hgt, u, hu, s, hs, rfl, rfl, hlinked.symm⟩, ?_⟩
    simp [hid.symm]

theorem mem_neighbours_comm (g : AccessGraph) {a b : Nat} (h : b ∈ g.neighbours a) : a ∈ g.neighbours b := by
  obtain ⟨⟨x, y⟩, hedge, hsome⟩ := List.mem_filterMap.1 h
  refine List.mem_filterMap.2 ⟨(x, y), hedge, ?_⟩
  dsimp only at hsome ⊢
  split at hsome
  · next hx =>
      cases hsome
      subst hx
      split
      · next heq => rw [heq]
      · rw [if_pos rfl]
  · split at hsome
    · next hy =>
        cases hsome
        simp [hy]
    · cases hsome

/-- Neighbours are linked segments. -/
theorem exists_of_mem_neighbours (h : t.WellTiled) {a b : Nat} (hb : b ∈ (ofTiling t).neighbours a) :
    ∃ s ∈ (ofTiling t).vertices, ∃ u ∈ (ofTiling t).vertices, s.id = a ∧ u.id = b ∧ s.Linked u := by
  obtain ⟨⟨x, y⟩, hedge, hsome⟩ := List.mem_filterMap.1 hb
  obtain ⟨-, s, hs, u, hu, rfl, rfl, hlinked⟩ := (mem_edges h).1 hedge
  dsimp only at hsome
  split at hsome
  · next hid =>
      cases hsome
      exact ⟨s, hs, u, hu, hid, rfl, hlinked⟩
  · split at hsome
    · next hid =>
        cases hsome
        exact ⟨u, hu, s, hs, hid, rfl, hlinked.symm⟩
    · cases hsome

theorem getElem?_position (h : t.WellTiled) (hs : s ∈ (ofTiling t).vertices) :
    (ofTiling t).vertices[(ofTiling t).position s.id]? = some s := by
  have hlt : (ofTiling t).position s.id < (ofTiling t).vertices.length :=
    List.findIdx_lt_length_of_exists ⟨s, hs, beq_self_eq_true _⟩
  have hid : ((ofTiling t).vertices[(ofTiling t).position s.id]).id = s.id :=
    beq_iff_eq.1 (List.findIdx_getElem (w := hlt))
  rw [List.getElem?_eq_getElem hlt, Option.some.injEq]
  exact eq_of_id_eq h (List.getElem_mem hlt) hs hid

theorem position_eq (h : t.WellTiled) {i : Nat} (hi : (ofTiling t).vertices[i]? = some s) :
    (ofTiling t).position s.id = i := by
  have hpos := getElem?_position h (List.mem_of_getElem? hi)
  have hnodup : (ofTiling t).vertices.Nodup := by
    refine (vertices_ascending h).imp ?_
    rintro s u hlt rfl
    exact Nat.lt_irrefl _ hlt
  exact (List.getElem?_inj (List.getElem?_eq_some_iff.1 hpos).1 hnodup).1 (hpos.trans hi.symm)

theorem led_components (h : t.WellTiled) :
    (ofTiling t).components.Led (ofTiling t).vertices.length ∧
      ∀ e ∈ (ofTiling t).edges,
        (ofTiling t).components.leader ((ofTiling t).position e.1) =
          (ofTiling t).components.leader ((ofTiling t).position e.2) := by
  have hends : ∀ e ∈ (ofTiling t).edges, (ofTiling t).position e.1 < (ofTiling t).vertices.length ∧
      (ofTiling t).position e.2 < (ofTiling t).vertices.length := by
    rintro ⟨a, b⟩ he
    obtain ⟨-, s, hs, u, hu, rfl, rfl, -⟩ := (mem_edges h).1 he
    exact ⟨(List.getElem?_eq_some_iff.1 (getElem?_position h hs)).1,
      (List.getElem?_eq_some_iff.1 (getElem?_position h hu)).1⟩
  obtain ⟨hco, hjoined⟩ := (Classes.led_ofSize (ofTiling t).vertices.length).foldl_merge
    (fun e : Nat × Nat => (ofTiling t).position e.1) (fun e => (ofTiling t).position e.2) hends
  exact ⟨hco.led, hjoined⟩

/-- The leader of the component of a segment. -/
def leaderOf (g : AccessGraph) (s : Segment) : Nat := g.components.leader (g.position s.id)

theorem leaderOf_eq_of_linked (h : t.WellTiled) (hs : s ∈ (ofTiling t).vertices)
    (hu : u ∈ (ofTiling t).vertices) (hlinked : s.Linked u) :
    (ofTiling t).leaderOf s = (ofTiling t).leaderOf u := by
  by_cases hid : s.id = u.id
  · rw [eq_of_id_eq h hs hu hid]
  · rcases Nat.lt_or_gt_of_ne hid with hlt | hgt
    · exact (led_components h).2 _ ((mem_edges h).2 ⟨hlt, s, hs, u, hu, rfl, rfl, hlinked⟩)
    · exact ((led_components h).2 _
        ((mem_edges h).2 ⟨hgt, u, hu, s, hs, rfl, rfl, hlinked.symm⟩)).symm

theorem mem_zipIdx_filter (h : t.WellTiled) (p : Segment → Bool) (leader : Nat) :
    s ∈ (((ofTiling t).vertices.zipIdx.filter fun (s, i) =>
      p s && (ofTiling t).components.leader i == leader).map Prod.fst) ↔
      s ∈ (ofTiling t).vertices ∧ p s = true ∧ (ofTiling t).leaderOf s = leader := by
  simp only [List.mem_map, List.mem_filter, Prod.exists, List.mem_zipIdx_iff_getElem?,
    Bool.and_eq_true, beq_iff_eq, leaderOf]
  constructor
  · rintro ⟨s, i, ⟨hi, hp, hleader⟩, rfl⟩
    rw [position_eq h hi]
    exact ⟨List.mem_of_getElem? hi, hp, hleader⟩
  · rintro ⟨hs, hp, hleader⟩
    exact ⟨s, _, ⟨getElem?_position h hs, hp, hleader⟩, rfl⟩

theorem routeCount_pos (h : t.WellTiled) {leader : Nat} :
    0 < (ofTiling t).routeCount (ofTiling t).components leader ↔
      ∃ s ∈ (ofTiling t).vertices, s.role.isRoute = true ∧ (ofTiling t).leaderOf s = leader := by
  rw [routeCount, ← List.length_map (f := Prod.fst), List.length_pos_iff_exists_mem]
  exact exists_congr fun s => mem_zipIdx_filter h (fun s => s.role.isRoute) leader

theorem mem_of_main? (h : t.WellTiled) {main : List Segment} (hmain : (ofTiling t).main? = some main) :
    ∃ leader, (ofTiling t).mainLeader? (ofTiling t).components = some leader ∧
      main.Pairwise (fun s u => s.id < u.id) ∧
      ∀ s, s ∈ main ↔ s ∈ (ofTiling t).vertices ∧ (ofTiling t).leaderOf s = leader := by
  obtain ⟨leader, hleader, rfl⟩ := Option.map_eq_some_iff.1 hmain
  refine ⟨leader, hleader, ?_, fun s => ?_⟩
  · refine (vertices_ascending h).sublist ?_
    have := (List.filter_sublist (p := fun (_, i) => (ofTiling t).components.leader i == leader)
      (l := (ofTiling t).vertices.zipIdx)).map Prod.fst
    rwa [List.zipIdx_map_fst] at this
  · have := mem_zipIdx_filter (s := s) h (fun _ => true) leader
    simpa using this

/-- What is linked to the main component belongs to it. -/
theorem mem_main_of_linked (h : t.WellTiled) {main : List Segment} (hmain : (ofTiling t).main? = some main)
    (hs : s ∈ (ofTiling t).vertices) (hu : u ∈ main) (hlinked : s.Linked u) : s ∈ main := by
  obtain ⟨leader, -, -, hmem⟩ := mem_of_main? h hmain
  obtain ⟨hvertex, hleader⟩ := (hmem u).1 hu
  exact (hmem s).2 ⟨hs, (leaderOf_eq_of_linked h hs hvertex hlinked).trans hleader⟩

/-- If there is any routing, there is a main component and it has some. -/
theorem exists_mainLeader (h : t.WellTiled) (hs : s ∈ (ofTiling t).vertices) (hroute : s.role.isRoute = true) :
    ∃ u ∈ (ofTiling t).vertices, u.role.isRoute = true ∧
      (ofTiling t).mainLeader? (ofTiling t).components = some ((ofTiling t).leaderOf u) := by
  unfold mainLeader?
  dsimp only
  have hlead : (ofTiling t).leaderOf s ∈ (ofTiling t).components.roots :=
    (led_components h).1.leader_mem_roots (List.getElem?_eq_some_iff.1 (getElem?_position h hs)).1
  have hcount := (routeCount_pos h).2 ⟨s, hs, hroute, rfl⟩
  have hlisted : ((ofTiling t).routeCount (ofTiling t).components ((ofTiling t).leaderOf s),
      (ofTiling t).leaderOf s) ∈ ((ofTiling t).components.roots.map fun l =>
        ((ofTiling t).routeCount (ofTiling t).components l, l)).filter fun p => 0 < p.1 :=
    List.mem_filter.2 ⟨List.mem_map.2 ⟨_, hlead, rfl⟩, decide_eq_true hcount⟩
  obtain ⟨best, hbest⟩ := exists_extreme?
    (fun a b : Nat × Nat => b.1 < a.1 || (a.1 == b.1 && a.2 < b.2)) hlisted
  obtain ⟨hmem, hpos⟩ := List.mem_filter.1 (mem_of_extreme? hbest)
  obtain ⟨l, -, rfl⟩ := List.mem_map.1 hmem
  obtain ⟨u, hu, hur, rfl⟩ := (routeCount_pos h).1 (of_decide_eq_true hpos)
  exact ⟨u, hu, hur, by rw [hbest, Option.map_some]⟩

/-- A leader whose component holds all routing is the main one. -/
theorem mainLeader?_eq (h : t.WellTiled) {leader : Nat} (hs : s ∈ (ofTiling t).vertices)
    (hroute : s.role.isRoute = true)
    (hall : ∀ u ∈ (ofTiling t).vertices, u.role.isRoute = true → (ofTiling t).leaderOf u = leader) :
    (ofTiling t).mainLeader? (ofTiling t).components = some leader := by
  obtain ⟨u, hu, hur, hleader⟩ := exists_mainLeader h hs hroute
  rw [hleader, hall u hu hur]

end AccessGraph

structure Tiling.Comprised (t : Tiling) (main : List Segment) : Prop where
  ascending : main.Pairwise fun s u => s.id < u.id
  mem_segments : ∀ s ∈ main, s ∈ t.segments
  mem_main : ∀ s ∈ t.segments, s.role.isRoute = true ∨ s.role.IsSlot → s ∈ main

namespace Tiling.Served

open AccessGraph

variable {grid : Rect} {anchor : Cell}

theorem mem_vertices_of_isRoute (hs : s ∈ t.segments) (hroute : s.role.isRoute = true) :
    s ∈ (ofTiling t).vertices :=
  mem_vertices.2 ⟨hs, .inl hroute⟩

theorem mem_vertices_of_isSlot (hs : s ∈ t.segments) (hslot : s.role.IsSlot) :
    s ∈ (ofTiling t).vertices := by
  refine mem_vertices.2 ⟨hs, .inr ?_⟩
  rcases hslot with hrole | hrole <;> rw [hrole] <;> rfl

/-- The segment of a routing cell. -/
theorem exists_segment (h : t.Served grid anchor) {c : Cell} (hc : t.isRouteAt c = true) :
    ∃ s ∈ t.segments, c ∈ s.rect ∧ s.role.isRoute = true := by
  obtain ⟨role, hrole, hroute⟩ := isRouteAt_iff.1 hc
  obtain ⟨s, hs, hcs, rfl⟩ := h.wellTiled.roleAt?_eq_some_iff.1 hrole
  exact ⟨s, hs, hcs, hroute⟩

theorem isRouteAt (h : t.Served grid anchor) (hs : s ∈ t.segments) (hroute : s.role.isRoute = true)
    {c : Cell} (hc : c ∈ s.rect) : t.isRouteAt c = true :=
  isRouteAt_iff.2 ⟨s.role, h.wellTiled.roleAt?_eq hs hc, hroute⟩

/-- Steps between routing cells stay in a segment or follow a link. -/
theorem linked_of_joined (h : t.Served grid anchor) {c d : Cell} (hcd : t.Joined c d)
    (hs : s ∈ t.segments) (hcs : c ∈ s.rect) (hu : u ∈ t.segments)
    (hdu : d ∈ u.rect) : t.RouteJoined s u := by
  induction hcd generalizing u with
  | refl =>
      rw [h.wellTiled.eq_of_mem hs hu hcs hdu]
      exact .refl
  | @tail d' d hreach hstep ih =>
      obtain ⟨hd', hd, side, hnext⟩ := hstep
      obtain ⟨v, hv, hdv, hvr⟩ := h.exists_segment hd'
      obtain ⟨w, hw, hdw, hwr⟩ := h.exists_segment hd
      obtain rfl := h.wellTiled.eq_of_mem hw hu hdw hdu
      refine (ih hv hdv).tail ⟨⟨side, ⟨d', hdv, d, hdu, hnext⟩, ?_⟩, hu, hwr⟩
      simp [Role.connects, hvr, hwr]

/-- A slot is entered from a routing segment. -/
theorem exists_access (h : t.Served grid anchor) (hs : s ∈ t.segments) (hslot : s.role.IsSlot) :
    ∃ u ∈ t.segments, u.role.isRoute = true ∧ s.Linked u := by
  obtain ⟨hy, hx⟩ := h.wellTiled.inhabited s hs
  have hc : ⟨s.rect.y0, s.rect.x0⟩ ∈ s.rect := Rect.mem_iff.2 ⟨le_rfl, hy, le_rfl, hx⟩
  obtain ⟨side, d, hside, hnext, hd⟩ := h.entered _ s.role (h.wellTiled.roleAt?_eq hs hc) hslot
  obtain ⟨u, hu, hdu, hroute⟩ := h.exists_segment hd
  refine ⟨u, hu, hroute, side, ⟨_, hc, d, hdu, hnext⟩, ?_⟩
  have hself : s.role.isRoute = false ∧ s.role.isEntered true = true := by
    rcases hslot with hrole | hrole <;> rw [hrole] <;> exact ⟨rfl, rfl⟩
  rw [hside, Role.connects, hself.1, hroute]
  exact hself.2

theorem linked_routes (h : t.Served grid anchor) (hs : s ∈ t.segments) (hsr : s.role.isRoute = true)
    (hu : u ∈ t.segments) (hur : u.role.isRoute = true) : t.RouteJoined s u := by
  obtain ⟨hsy, hsx⟩ := h.wellTiled.inhabited s hs
  obtain ⟨huy, hux⟩ := h.wellTiled.inhabited u hu
  have hcs : ⟨s.rect.y0, s.rect.x0⟩ ∈ s.rect := Rect.mem_iff.2 ⟨le_rfl, hsy, le_rfl, hsx⟩
  have hdu : ⟨u.rect.y0, u.rect.x0⟩ ∈ u.rect := Rect.mem_iff.2 ⟨le_rfl, huy, le_rfl, hux⟩
  have hjoined := (h.joined _ (h.isRouteAt hs hsr hcs)).symm.trans (h.joined _ (h.isRouteAt hu hur hdu))
  exact h.linked_of_joined hjoined hs hcs hu hdu

/-- The main component has all routing and all slots. -/
theorem exists_main (h : t.Served grid anchor) :
    ∃ main, (ofTiling t).main? = some main ∧ t.Comprised main := by
  obtain ⟨a, ha, -, har⟩ := h.exists_segment h.anchored
  have hroutes : ∀ u ∈ (ofTiling t).vertices, u.role.isRoute = true →
      (ofTiling t).leaderOf u = (ofTiling t).leaderOf a := by
    intro u hu hur
    have hreach := h.linked_routes ha har (mem_vertices.1 hu).1 hur
    clear hu hur
    induction hreach with
    | refl => rfl
    | @tail v w hreach hstep ih =>
        obtain ⟨hlinked, hw, hwr⟩ := hstep
        have hv : v ∈ (ofTiling t).vertices := by
          rcases Relation.ReflTransGen.cases_tail hreach with rfl | ⟨_, -, -, hv, hvr⟩
          · exact mem_vertices_of_isRoute ha har
          · exact mem_vertices_of_isRoute hv hvr
        rw [← ih]
        exact (leaderOf_eq_of_linked h.wellTiled hv (mem_vertices_of_isRoute hw hwr) hlinked).symm
  have hleader := mainLeader?_eq h.wellTiled (mem_vertices_of_isRoute ha har) har hroutes
  have hmain : ∃ main, (ofTiling t).main? = some main := by
    rw [AccessGraph.main?, hleader]
    exact ⟨_, rfl⟩
  obtain ⟨main, hmain⟩ := hmain
  obtain ⟨leader, hleader', hascending, hmem⟩ := mem_of_main? h.wellTiled hmain
  rw [hleader] at hleader'
  cases hleader'
  refine ⟨main, hmain, hascending, fun s hs => (mem_vertices.1 ((hmem s).1 hs).1).1, ?_⟩
  intro s hs hrole
  rcases hrole with hroute | hslot
  · have hv := mem_vertices_of_isRoute hs hroute
    exact (hmem s).2 ⟨hv, hroutes s hv hroute⟩
  · obtain ⟨u, hu, hur, hlinked⟩ := h.exists_access hs hslot
    have hv := mem_vertices_of_isSlot hs hslot
    have hvu := mem_vertices_of_isRoute hu hur
    refine (hmem s).2 ⟨hv, ?_⟩
    rw [leaderOf_eq_of_linked h.wellTiled hv hvu hlinked, hroutes u hvu hur]

end Tiling.Served

end SurfaceFabric
