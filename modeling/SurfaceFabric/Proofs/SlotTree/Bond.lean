import SurfaceFabric.Proofs.SlotTree.Build

/-!
Which leaves the root of a slot tree reaches. The main component holds what links join, and a slot between two
routing segments joins them. Clusters follow links between routing segments only, and the first cluster gets
the root. So a leaf hangs under the root if its routing segment is joined to the routing there by routing alone,
and routing that only a slot joins to the rest is left out, with the leaves on it.
-/

namespace SurfaceFabric.SlotTree

namespace Clustering

variable {c : Clustering} {planted : SlotTree} {g : AccessGraph} {routes : List Nat} {n base i : Nat}

theorem Bonded.symm {a b : Nat} (h : Bonded g routes a b) : Bonded g routes b a := by
  induction h with
  | refl => exact .refl
  | tail _ hstep ih =>
      obtain ⟨ha, hb, hlink⟩ := hstep
      exact .head ⟨hb, ha, g.mem_neighbours_comm hlink⟩ ih

theorem bonded_equivalence (g : AccessGraph) (routes : List Nat) : Equivalence (Bonded g routes) :=
  ⟨fun _ => .refl, Bonded.symm, Relation.ReflTransGen.trans⟩

def BondedAt (g : AccessGraph) (routes : List Nat) (i j : Nat) : Prop :=
  Bonded g routes (routes.getD i 0) (routes.getD j 0)

theorem bondedAt_equivalence (g : AccessGraph) (routes : List Nat) : Equivalence (BondedAt g routes) :=
  (bonded_equivalence g routes).comap fun i => routes.getD i 0

theorem bondedAt_of_mem_outgoing {e : Nat × Link} (he : e ∈ outgoing g routes c) :
    BondedAt g routes e.2.i e.2.j := by
  obtain ⟨i, a, b, j, hi, hb, hj, -, rfl⟩ := mem_outgoing.1 he
  obtain ⟨hlt, hget, -⟩ := List.findIdx?_eq_some_iff_getElem.1 hj
  have hjb : routes[j]? = some b := by
    rw [List.getElem?_eq_getElem hlt, beq_iff_eq.1 hget]
  simp only [BondedAt, List.getD_eq_getElem?_getD, hi, hjb, Option.getD_some]
  exact .single ⟨List.mem_of_getElem? hi, List.mem_of_getElem? hjb, hb⟩

/-- Rounds put segments into one cluster only if links join them. -/
theorem Clustered.bondedAt_rounds (h : Clustered routes.length base planted c) (fuel : Nat)
    (hbonded : ∀ k < routes.length, BondedAt g routes k (c.classes.leader k)) :
    ∀ k < routes.length, BondedAt g routes k ((Clustering.rounds g routes fuel c).classes.leader k) := by
  induction fuel generalizing c with
  | zero => exact hbonded
  | succ fuel ih =>
      rw [Clustering.rounds]
      split
      · exact hbonded
      -- every round follows links, and merging along links stays within what links join
      · have hlinks : ∀ l ∈ c.chosen (outgoing g routes c), l.i < routes.length ∧ l.j < routes.length ∧
            BondedAt g routes l.i l.j := by
          intro l hl
          obtain ⟨leader, he⟩ := exists_of_mem_chosen hl
          obtain ⟨-, hi, hj, -⟩ := h.of_mem_outgoing he
          exact ⟨hi, hj, bondedAt_of_mem_outgoing he⟩
        obtain ⟨-, -, hsame, hnext⟩ := h.merge (fun l hl => ⟨(hlinks l hl).1, (hlinks l hl).2.1⟩) rfl
        refine ih hnext ?_
        rw [hsame]
        exact h.led.related_foldl_merge Link.i Link.j (bondedAt_equivalence g routes) hlinks hbonded

theorem classes_start (t : SlotTree) (n : Nat) : (start t n).classes = .ofSize n := by
  have hrun (ks : List Nat) (c : Clustering) : (ks.foldl Clustering.raise c).classes = c.classes := by
    induction ks generalizing c with
    | nil => rfl
    | cons k ks ih => exact ih _
  exact hrun _ _

end Clustering

section Main

open AccessGraph

variable {l : Layout} {main : List Segment} {i j p q a b : Nat} {k : SlotNodeKind}

/-- Two routing segments share a cluster in the end if and only if links between routing join them. -/
theorem leader_clusteringOf_iff (hnodup : (routesOf main).Nodup) (hi : (routesOf main)[i]? = some a)
    (hj : (routesOf main)[j]? = some b) :
    (clusteringOf l main).classes.leader i = (clusteringOf l main).classes.leader j ↔
      Clustering.Bonded (ofTiling l.tiling) (routesOf main) a b := by
  obtain ⟨-, hnone⟩ := clustered_clusteringOf l main
  refine ⟨fun heq => ?_, fun hbonded => Clustering.leader_eq_of_outgoing hnodup hnone hi hj hbonded⟩
  have hstart := clustered_start_plantedOf l main
  have hbonded := hstart.bondedAt_rounds (g := ofTiling l.tiling) (routesOf main).length fun k _ => by
    rw [Clustering.classes_start, Classes.leader_ofSize]
    exact (Clustering.bondedAt_equivalence _ _).refl k
  have hij : Clustering.BondedAt (ofTiling l.tiling) (routesOf main) i j :=
    (Clustering.bondedAt_equivalence _ _).trans (hbonded i (List.getElem?_eq_some_iff.1 hi).1)
      (heq ▸ (Clustering.bondedAt_equivalence _ _).symm (hbonded j (List.getElem?_eq_some_iff.1 hj).1))
  simpa [Clustering.BondedAt, List.getD_eq_getElem?_getD, hi, hj] using hij

/-- A node for a routing segment of the layout. -/
structure StandsFor (l : Layout) (i : Nat) (s : Segment) : Prop where
  mem : s ∈ l.tiling.segments
  route : s.role.isRoute = true
  kind : (build l).kinds[i]? = some (.route s.id)

theorem isLeaf_of_mem_leavesOf (hk : k ∈ leavesOf l main) : k.isLeaf = true := by
  obtain ⟨s, -, hs⟩ := List.mem_filterMap.1 hk
  rcases leaf?_cases hs with ⟨kind, -, rfl⟩ | ⟨handle, template, entrance, rfl⟩ <;> rfl

/-- Nodes of the tree: routing first, then leaves, then junctions. -/
theorem kinds_build_cases (hmain : (ofTiling l.tiling).main? = some main)
    (hk : (build l).kinds[i]? = some k) :
    (∃ a, (routesOf main)[i]? = some a ∧ k = .route a) ∨
      (k.isLeaf = true ∧ (routesOf main).length ≤ i ∧ i < (plantedOf l main).nodes.length) ∨
      k = .junction := by
  obtain ⟨rank, -, hpruned⟩ := pruned_build hmain
  obtain ⟨n, hkinds⟩ := kinds_rooted l main
  have hlength := (planted_plantedOf l main).length
  rw [hpruned.kinds, hkinds, List.append_assoc] at hk
  by_cases hroute : i < (routesOf main).length
  · rw [List.getElem?_append_left (by simpa using hroute), List.getElem?_map] at hk
    obtain ⟨a, ha, rfl⟩ := Option.map_eq_some_iff.1 hk
    exact .inl ⟨a, ha, rfl⟩
  · rw [List.getElem?_append_right (by simpa using hroute), List.length_map] at hk
    by_cases hleaf : i - (routesOf main).length < (leavesOf l main).length
    · rw [List.getElem?_append_left hleaf] at hk
      exact .inr (.inl ⟨isLeaf_of_mem_leavesOf (List.mem_of_getElem? hk), by omega, by omega⟩)
    · rw [List.getElem?_append_right (by omega)] at hk
      exact .inr (.inr (List.eq_of_mem_replicate (List.mem_of_getElem? hk)))

theorem kinds_build_route (hmain : (ofTiling l.tiling).main? = some main)
    (hp : (routesOf main)[p]? = some a) : (build l).kinds[p]? = some (.route a) := by
  obtain ⟨rank, -, hpruned⟩ := pruned_build hmain
  obtain ⟨n, hkinds⟩ := kinds_rooted l main
  have hlt : p < ((routesOf main).map SlotNodeKind.route).length := by
    simpa using (List.getElem?_eq_some_iff.1 hp).1
  rw [hpruned.kinds, hkinds, List.append_assoc, List.getElem?_append_left hlt, List.getElem?_map, hp]
  rfl

/-- A routing segment hangs under the root with the first cluster. -/
theorem hangs_route_iff (hmain : (ofTiling l.tiling).main? = some main) (hp : (routesOf main)[p]? = some a) :
    (build l).Hangs p ↔
      (clusteringOf l main).classes.roots.head? = some ((clusteringOf l main).classes.leader p) := by
  obtain ⟨rank, -, hpruned⟩ := pruned_build hmain
  have hinner : (clusteringOf l main).rooted.kinds[p]? ≠ some .junction := by
    rw [← hpruned.kinds, kinds_build_route hmain hp]
    simp
  rw [hpruned.hangs_iff p hinner,
    (clustered_clusteringOf l main).1.hangs_iff (List.getElem?_eq_some_iff.1 hp).1]

/-- Routing hangs under the root together with the routing that links join it to. -/
theorem hangs_iff_of_hangs (h : l.tiling.WellTiled) (hmain : (ofTiling l.tiling).main? = some main)
    (hp : (routesOf main)[p]? = some a) (hq : (routesOf main)[q]? = some b) (hhangs : (build l).Hangs q) :
    (build l).Hangs p ↔ Clustering.Bonded (ofTiling l.tiling) (routesOf main) a b := by
  obtain ⟨leader, -, hascending, -⟩ := mem_of_main? h hmain
  rw [hangs_route_iff hmain hq] at hhangs
  rw [hangs_route_iff hmain hp, hhangs, Option.some.injEq,
    ← leader_clusteringOf_iff (nodup_routesOf hascending) hp hq, eq_comm]

/-- Some routing hangs under the root, if there is any. -/
theorem exists_hanging (hmain : (ofTiling l.tiling).main? = some main) (hp : (routesOf main)[p]? = some a) :
    ∃ q b, (routesOf main)[q]? = some b ∧ (build l).Hangs q := by
  have hled := (clustered_clusteringOf l main).1.led
  have hroot := hled.leader_mem_roots (List.getElem?_eq_some_iff.1 hp).1
  cases hhead : (clusteringOf l main).classes.roots.head? with
  | none =>
      rw [List.head?_eq_none_iff.1 hhead] at hroot
      cases hroot
  | some q =>
      obtain ⟨hlt, hself⟩ := hled.mem_roots.1 (List.mem_of_head? hhead)
      refine ⟨q, _, List.getElem?_eq_getElem hlt, ?_⟩
      rw [hangs_route_iff hmain (List.getElem?_eq_getElem hlt), hhead, hself]

/-- A leaf has a routing segment for its parent. -/
theorem exists_parent_of_isLeaf (hmain : (ofTiling l.tiling).main? = some main)
    (hk : (build l).kinds[i]? = some k) (hleaf : k.isLeaf = true) :
    ∃ p a, (routesOf main)[p]? = some a ∧ (build l).parent? i = some p := by
  obtain ⟨rank, -, hpruned⟩ := pruned_build hmain
  obtain ⟨hhigh, hlt⟩ : (routesOf main).length ≤ i ∧ i < (plantedOf l main).nodes.length := by
    rcases kinds_build_cases hmain hk with ⟨a, -, rfl⟩ | ⟨-, hplace⟩ | rfl
    · cases hleaf
    · exact hplace
    · cases hleaf
  obtain ⟨p, hplt, hp⟩ := (planted_plantedOf l main).exists_parent (fun _ => isLeaf_of_mem_leavesOf) hhigh hlt
  have hproute := List.getElem?_eq_getElem hplt
  refine ⟨p, _, hproute, hpruned.parent? i p ?_ ?_ ?_⟩
  · exact (clustered_clusteringOf l main).1.joining.grown.parent?_eq i p hp
  · rw [← hpruned.kinds, hk, ne_eq, Option.some.injEq]
    rintro rfl
    cases hleaf
  · rw [← hpruned.kinds, kinds_build_route hmain hproute]
    simp

theorem mem_of_routesOf (h : l.tiling.WellTiled) (hmain : (ofTiling l.tiling).main? = some main)
    (hp : (routesOf main)[p]? = some a) : ∃ s ∈ main, s.id = a ∧ StandsFor l p s := by
  obtain ⟨leader, -, -, hmem⟩ := mem_of_main? h hmain
  obtain ⟨s, hs, rfl⟩ := List.mem_map.1 (List.mem_of_getElem? hp)
  obtain ⟨hs, hroute⟩ := List.mem_filter.1 hs
  exact ⟨s, hs, rfl, (mem_vertices.1 ((hmem s).1 hs).1).1, hroute, kinds_build_route hmain hp⟩

/-- Links between routing segments of the tree are links of the layout. -/
theorem routeJoined_of_bonded (h : l.tiling.WellTiled) (hmain : (ofTiling l.tiling).main? = some main)
    {s u : Segment} (hs : s ∈ main) (hu : u ∈ main)
    (hbonded : Clustering.Bonded (ofTiling l.tiling) (routesOf main) s.id u.id) : l.tiling.RouteJoined s u := by
  obtain ⟨leader, -, -, hmem⟩ := mem_of_main? h hmain
  -- links are between numbers, so each step has to find the segments again that bear them
  generalize hb : u.id = b at hbonded
  induction hbonded generalizing u with
  | refl =>
      obtain rfl := eq_of_id_eq h ((hmem u).1 hu).1 ((hmem s).1 hs).1 hb
      exact .refl
  | @tail a b _ hstep ih =>
      obtain ⟨ha, hroute, hlink⟩ := hstep
      obtain ⟨v, hv, rfl⟩ := List.mem_map.1 ha
      obtain ⟨w, hw, hwid⟩ := List.mem_map.1 hroute
      obtain ⟨x, hx, y, hy, hxid, hyid, hlinked⟩ := exists_of_mem_neighbours h hlink
      have hvmain := (List.mem_filter.1 hv).1
      obtain rfl := eq_of_id_eq h hx ((hmem v).1 hvmain).1 hxid
      obtain rfl := eq_of_id_eq h hy ((hmem u).1 hu).1 (hyid.trans hb.symm)
      obtain rfl := eq_of_id_eq h ((hmem w).1 (List.mem_filter.1 hw).1).1 hy (hwid.trans hyid.symm)
      exact (ih hvmain rfl).tail ⟨hlinked, (mem_vertices.1 hy).1, (List.mem_filter.1 hw).2⟩

theorem StandsFor.mem_main (h : l.tiling.WellTiled) (hmain : (ofTiling l.tiling).main? = some main)
    {s : Segment} (hs : StandsFor l p s) : (routesOf main)[p]? = some s.id ∧ s ∈ main := by
  rcases kinds_build_cases hmain hs.kind with ⟨a, ha, heq⟩ | ⟨hleaf, -⟩ | heq
  · cases heq
    obtain ⟨u, hu, hid, hstands⟩ := mem_of_routesOf h hmain ha
    obtain rfl := h.eq_of_id_eq hstands.mem hs.mem hid
    exact ⟨ha, hu⟩
  · cases hleaf
  · cases heq

/-- Routing of which some hangs under the root does so as far as routing alone joins it. -/
theorem StandsFor.hangs_iff (h : l.tiling.WellTiled) (hmain : (ofTiling l.tiling).main? = some main)
    {s u : Segment} (hs : StandsFor l p s) (hu : StandsFor l q u) (hhangs : (build l).Hangs q) :
    (build l).Hangs p ↔ l.tiling.RouteJoined s u := by
  obtain ⟨hp, hsmain⟩ := hs.mem_main h hmain
  obtain ⟨hq, humain⟩ := hu.mem_main h hmain
  rw [hangs_iff_of_hangs h hmain hp hq hhangs]
  exact ⟨routeJoined_of_bonded h hmain hsmain humain,
    fun hjoined => (bonded_of_routeJoined h hmain hsmain hs.route hjoined).2.2⟩

end Main

open scoped Classical in
structure RootReaches (l : Layout) : Prop where
  /-- A leaf is attached to a routing segment. It hangs under the root if and only if routing alone joins that
  segment to the routing that does, whichever part of it is looked at. -/
  leaf_iff : ∀ i k, (build l).kinds[i]? = some k → k.isLeaf = true →
    ∃ p s, (build l).parent? i = some p ∧ StandsFor l p s ∧
      ∀ q u, StandsFor l q u → (build l).Hangs q → ((build l).Hangs i ↔ l.tiling.RouteJoined s u)
  /-- Some routing of the tree hangs under the root. -/
  exists_route : ∀ p s, StandsFor l p s → ∃ q u, StandsFor l q u ∧ (build l).Hangs q
  /-- If routing alone joins all routing of the tree, every leaf hangs under the root. -/
  leaves : (∀ p s q u, StandsFor l p s → StandsFor l q u → l.tiling.RouteJoined s u) →
    ∀ i k, (build l).kinds[i]? = some k → k.isLeaf = true → (build l).Hangs i
  /-- The slots of what hangs under the root are counted, and no others. -/
  counted : ∀ kind, (build l).capacity kind =
    ∑ i ∈ Finset.range (build l).nodes.length with (build l).Hangs i, (build l).stock i kind

theorem rootReaches_of_main {l : Layout} {main : List Segment} (h : l.tiling.WellTiled)
    (hmain : (AccessGraph.ofTiling l.tiling).main? = some main) : RootReaches l := by
  obtain ⟨rank, hstocked, hpruned⟩ := pruned_build hmain
  have hexists (p : Nat) (s : Segment) (hs : StandsFor l p s) :
      ∃ q u, StandsFor l q u ∧ (build l).Hangs q := by
    obtain ⟨q, b, hq, hhangs⟩ := exists_hanging hmain (hs.mem_main h hmain).1
    obtain ⟨u, -, -, hu⟩ := mem_of_routesOf h hmain hq
    exact ⟨q, u, hu, hhangs⟩
  have hleaf (i : Nat) (k : SlotNodeKind) (hk : (build l).kinds[i]? = some k) (hleaf : k.isLeaf = true) :
      ∃ p s, (build l).parent? i = some p ∧ StandsFor l p s ∧
        ∀ q u, StandsFor l q u → (build l).Hangs q → ((build l).Hangs i ↔ l.tiling.RouteJoined s u) := by
    obtain ⟨p, a, ha, hp⟩ := exists_parent_of_isLeaf hmain hk hleaf
    obtain ⟨s, -, -, hs⟩ := mem_of_routesOf h hmain ha
    refine ⟨p, s, hp, hs, fun q u hu hhangs => ?_⟩
    rw [hpruned.crowned.hangs_iff_parent hp]
    exact hs.hangs_iff h hmain hu hhangs
  refine ⟨hleaf, hexists, fun hjoined i k hk hisLeaf => ?_, hstocked.capacity_eq⟩
  obtain ⟨p, s, -, hs, hiff⟩ := hleaf i k hk hisLeaf
  obtain ⟨q, u, hu, hhangs⟩ := hexists p s hs
  exact (hiff q u hu hhangs).2 (hjoined p s q u hs hu)

/-- In the slot tree of any layout, the leaves under the root are those on routing that routing alone joins to
the routing there. -/
theorem root_reaches_joined_routing {l : Layout} {height width : Nat} {ops : List Tiling.Operation}
    (hreach : (Tiling.ofSize height width).performAll ops = .ok l.tiling) : RootReaches l := by
  have hwell := (Tiling.wellTiled_ofSize height width).changes (Tiling.changes_of_performAll hreach)
  cases hmain : (AccessGraph.ofTiling l.tiling).main? with
  | some main => exact rootReaches_of_main hwell hmain
  | none =>
      have hempty : build l = empty := by rw [build, hmain]
      have hnone (i : Nat) : (build l).kinds[i]? = none := by
        rw [hempty]
        rfl
      refine ⟨fun i k hk => ?_, fun p s hs => ?_, fun _ i k hk => ?_, fun kind => ?_⟩
      · rw [hnone] at hk
        cases hk
      · have hk := hs.kind
        rw [hnone] at hk
        cases hk
      · rw [hnone] at hk
        cases hk
      · rw [hempty]
        exact (stocked_empty id).capacity_eq kind

namespace Bridge

/-- Routing, a register, routing and a register, one below the other. -/
def ops : List Tiling.Operation :=
  [.partition 0 [.taken .route ⟨0, 0, 1, 1⟩, .taken .register ⟨1, 0, 2, 1⟩, .taken .route ⟨2, 0, 3, 1⟩,
    .taken .register ⟨3, 0, 4, 1⟩]]

def layout : Layout :=
  .ofTiling ⟨4, 1, [⟨1, ⟨0, 0, 1, 1⟩, true, .route, [], [2], [], []⟩,
    ⟨2, ⟨1, 0, 2, 1⟩, true, .register, [1], [3], [], []⟩, ⟨3, ⟨2, 0, 3, 1⟩, true, .route, [2], [4], [], []⟩,
    ⟨4, ⟨3, 0, 4, 1⟩, true, .register, [3], [], [], []⟩], 5⟩ 0

theorem performAll_ops : (Tiling.ofSize 4 1).performAll ops = .ok layout.tiling := by decide +kernel

end Bridge

theorem bridge_rootReaches :
    (Tiling.ofSize 4 1).performAll Bridge.ops = .ok Bridge.layout.tiling ∧ RootReaches Bridge.layout :=
  ⟨Bridge.performAll_ops, root_reaches_joined_routing Bridge.performAll_ops⟩

/-- The upper register joins both routing segments in one component, but no routing does. So the lower register
is a leaf of the tree that does not hang under its root, and of two registers one is counted. -/
theorem bridge_leaf_dangles : (Tiling.ofSize 4 1).performAll Bridge.ops = .ok Bridge.layout.tiling ∧
    (build Bridge.layout).kinds[3]? = some (.cells 4 .register [⟨3, 0⟩]) ∧ ¬(build Bridge.layout).Hangs 3 ∧
    (build Bridge.layout).capacity .register = 1 := by
  have hroot : (build Bridge.layout).root = some 0 := by decide +kernel
  have hleaf : (build Bridge.layout).parent? 3 = some 1 := by decide +kernel
  have htop : (build Bridge.layout).parent? 1 = none := by decide +kernel
  refine ⟨Bridge.performAll_ops, by decide +kernel, ?_, by decide +kernel⟩
  rintro ⟨r, hr, hclimb⟩
  rw [hroot, Option.some.injEq] at hr
  rcases Relation.ReflTransGen.cases_head hclimb with heq | ⟨p, hp, hrest⟩
  · omega
  · rw [hleaf, Option.some.injEq] at hp
    subst hp
    have := Climbs.eq_of_top hrest htop
    omega

end SurfaceFabric.SlotTree
