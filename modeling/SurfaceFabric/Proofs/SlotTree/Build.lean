import SurfaceFabric.Proofs.SlotTree.Access
import SurfaceFabric.Proofs.SlotTree.Cluster
import SurfaceFabric.Proofs.SlotTree.Count

/-!
The slot tree of a layout. Routing segments and their leaves form a forest of height one, clustering
joins it into one tree if the routing is joined, and accumulating counts what it offers. For a layout
whose routing serves it, the tree offers the cells of all register and I/O segments.
-/

namespace SurfaceFabric

def SlotKind.role? : SlotKind → Option Role
  | .register => some .register
  | .io => some .io
  | .factory _ => none

theorem SlotKind.isSlot_of_role? {kind : SlotKind} {role : Role} (h : kind.role? = some role) :
    role.IsSlot := by
  cases kind with
  | register => cases h; exact .inl rfl
  | io => cases h; exact .inr rfl
  | factory template => cases h

def SlotNodeKind.slots : SlotNodeKind → List (SlotKind × Cell)
  | .cells _ kind left => left.map fun c => (kind, c)
  | _ => []

theorem SlotNodeKind.slots_of_inner {k : SlotNodeKind} (h : k.isLeaf = false) : k.slots = [] := by
  cases k with
  | cells segment kind left => cases h
  | factory segment handle template entrance taken => cases h
  | route segment => rfl
  | junction => rfl

namespace SlotTree

variable {t : SlotTree} {l : Layout} {g : AccessGraph} {routes : List Nat} {leaves : List SlotNodeKind}
  {s : Segment} {k : SlotNodeKind}

/-- The routing segments without parents, then leaves below them. -/
structure Planted (routes : List Nat) (leaves : List SlotNodeKind) (t : SlotTree) : Prop where
  forest : ∀ base, t.nodes.length ≤ base → Forest t (layerRank routes.length base)
  kinds_eq : t.kinds = routes.map SlotNodeKind.route ++ leaves
  top_iff : ∀ a < t.nodes.length, t.parent? a = none ↔ a < routes.length

theorem Planted.length (h : Planted routes leaves t) :
    t.nodes.length = routes.length + leaves.length := by
  simpa [kinds] using congrArg List.length h.kinds_eq

/-- What is not routing hangs off routing. -/
theorem Planted.exists_parent (h : Planted routes leaves t) (hleaves : ∀ k ∈ leaves, k.isLeaf = true)
    {i : Nat} (hi : routes.length ≤ i) (hlt : i < t.nodes.length) :
    ∃ p < routes.length, t.parent? i = some p := by
  have hforest := h.forest _ le_rfl
  cases hp : t.parent? i with
  | none =>
      have := (h.top_iff i hlt).1 hp
      omega
  | some p =>
      have hchild := (hforest.parent_iff p i).2 hp
      refine ⟨p, Nat.lt_of_not_le fun hhigh => ?_, rfl⟩
      -- a leaf has no children
      obtain ⟨n, hn⟩ := exists_node? (hforest.lt_length hchild).1
      have hkind : t.kinds[p]? = some n.kind := by
        rw [kinds_getElem?, hn]
        rfl
      have hleaf : leaves[p - routes.length]? = some n.kind := by
        rw [h.kinds_eq, List.getElem?_append_right (by simpa using hhigh), List.length_map] at hkind
        exact hkind
      rw [hforest.childless p n.kind hkind (hleaves _ (List.mem_of_getElem? hleaf))] at hchild
      cases hchild

theorem push_routes (rest : List Nat) (u : SlotTree) (hforest : ∀ rank, Forest u rank)
    (hparent : ∀ a, u.parent? a = none) :
    (∀ rank, Forest (rest.foldl (fun t r => t.push (.isolated (.route r) 0)) u) rank) ∧
      (∀ a, (rest.foldl (fun t r => t.push (.isolated (.route r) 0)) u).parent? a = none) ∧
      (rest.foldl (fun t r => t.push (.isolated (.route r) 0)) u).kinds =
        u.kinds ++ rest.map SlotNodeKind.route := by
  induction rest generalizing u with
  | nil => exact ⟨hforest, hparent, (List.append_nil _).symm⟩
  | cons r rest ih =>
      obtain ⟨hforest', hparent', hkinds⟩ := ih (u.push (.isolated (.route r) 0))
        (fun rank => (hforest rank).push _ _) (fun a => by rw [parent?_push_isolated, hparent])
      refine ⟨hforest', hparent', ?_⟩
      rw [List.foldl_cons, hkinds, kinds_push, List.append_assoc]
      rfl

theorem planted_routes (routes : List Nat) :
    Planted routes [] (routes.foldl (fun t r => t.push (.isolated (.route r) 0)) empty) := by
  obtain ⟨hforest, hparent, hkinds⟩ := push_routes routes empty (fun _ => .empty) (fun _ => rfl)
  refine ⟨fun base _ => hforest _, by simpa [kinds, empty] using hkinds, fun a ha => ?_⟩
  rw [← length_kinds, hkinds] at ha
  rw [hparent]
  simpa [kinds, empty] using ha

def leaf? (l : Layout) (g : AccessGraph) (routes : List Nat) (s : Segment) : Option SlotNodeKind :=
  if (accesses g routes s.id).isEmpty then none else leafKind? l s

theorem leaf?_cases (h : leaf? l g routes s = some k) :
    (∃ kind, kind.role? = some s.role ∧ k = .cells s.id kind s.rect.cells) ∨
      ∃ handle template entrance, k = .factory s.id handle template entrance false := by
  unfold leaf? at h
  split at h
  · cases h
  · unfold leafKind? at h
    split at h
    · next hrole =>
        cases h
        exact .inl ⟨.register, by rw [hrole]; rfl, rfl⟩
    · next hrole =>
        cases h
        exact .inl ⟨.io, by rw [hrole]; rfl, rfl⟩
    · next handle _ =>
        obtain ⟨u, -, hu⟩ := Option.bind_eq_some_iff.1 h
        obtain ⟨e, -, he⟩ := Option.bind_eq_some_iff.1 hu
        cases he
        exact .inr ⟨handle, u.template, e, rfl⟩
    · cases h

/-- A new leaf below a routing segment. -/
theorem Planted.attachLeaf (h : Planted routes leaves t) {i : Nat} (hi : i < routes.length)
    (k : SlotNodeKind) (w : Float) :
    Planted routes (leaves ++ [k]) ((t.push (.isolated k w)).attach i t.nodes.length) := by
  have hlength := h.length
  have hne : i ≠ t.nodes.length := by omega
  have hnew : t.parent? t.nodes.length = none := by simp [parent?, node?]
  have hlast : t.nodes.length < (t.push (.isolated k w)).nodes.length := by
    rw [length_push]
    omega
  refine ⟨fun base hbase => ?_, ?_, fun a ha => ?_⟩
  · rw [length_attach, length_push] at hbase
    refine ((h.forest base (by omega)).push k w).attach (by rw [length_push]; omega) hlast
      (by rw [parent?_push_isolated, hnew]) ?_ ?_
    · unfold layerRank
      rw [if_neg (by omega), if_pos (by omega), if_pos hi]
      omega
    · intro k' hk'
      rw [kinds_push, h.kinds_eq, List.append_assoc, List.getElem?_append_left (by simpa using hi)] at hk'
      obtain ⟨r, -, rfl⟩ := List.mem_map.1 (List.mem_of_getElem? hk')
      rfl
  · rw [kinds_attach, kinds_push, h.kinds_eq, List.append_assoc]
    rfl
  · rw [length_attach, length_push] at ha
    rw [parent?_attach hne hlast, parent?_push_isolated]
    by_cases hlast' : a = t.nodes.length
    · rw [if_pos hlast']
      simp only [reduceCtorEq, false_iff]
      omega
    · rw [if_neg hlast', h.top_iff a (by omega)]

theorem Planted.addLeaf (h : Planted routes leaves t) (l : Layout) (g : AccessGraph) (s : Segment) :
    Planted routes (leaves ++ (leaf? l g routes s).toList) (SlotTree.addLeaf l g routes t s) := by
  unfold SlotTree.addLeaf leaf?
  cases hacc : accesses g routes s.id with
  | nil => simpa using h
  | cons a rest =>
      obtain ⟨n, r⟩ := a
      cases hkind : leafKind? l s with
      | none => simpa using h
      | some k =>
          have hr : r ∈ routes := by
            have hmem : (n, r) ∈ accesses g routes s.id := by rw [hacc]; exact List.mem_cons_self
            obtain ⟨r', hr', heq⟩ := List.mem_map.1 (mem_sortBy.1 hmem)
            cases heq
            exact of_decide_eq_true (List.mem_filter.1 hr').2
          have hidx : routes.findIdx (· == r) < routes.length :=
            List.findIdx_lt_length_of_exists ⟨r, hr, beq_self_eq_true r⟩
          exact h.attachLeaf hidx k _

theorem Planted.addLeaves (h : Planted routes leaves t) (segments : List Segment) :
    Planted routes (leaves ++ segments.filterMap (leaf? l g routes))
      (segments.foldl (SlotTree.addLeaf l g routes) t) := by
  induction segments generalizing t leaves with
  | nil => simpa using h
  | cons s segments ih =>
      have hnext := ih (h.addLeaf l g s)
      rw [List.append_assoc] at hnext
      rw [List.foldl_cons, List.filterMap_cons]
      cases hleaf : leaf? l g routes s with
      | none => simpa [hleaf] using hnext
      | some k => simpa [hleaf] using hnext

def routesOf (main : List Segment) : List Nat :=
  (main.filter fun s => s.role.isRoute).map Segment.id

theorem nodup_routesOf {main : List Segment} (h : main.Pairwise fun s u => s.id < u.id) :
    (routesOf main).Nodup := by
  refine List.pairwise_map.2 ((h.filter _).imp ?_)
  intro s u hlt
  exact Nat.ne_of_lt hlt

def leavesOf (l : Layout) (main : List Segment) : List SlotNodeKind :=
  (main.filter fun s => !s.role.isRoute).filterMap
    (leaf? l (AccessGraph.ofTiling l.tiling) (routesOf main))

def plantedOf (l : Layout) (main : List Segment) : SlotTree :=
  (main.filter fun s => !s.role.isRoute).foldl (addLeaf l (AccessGraph.ofTiling l.tiling) (routesOf main))
    ((routesOf main).foldl (fun t r => t.push (.isolated (.route r) 0)) empty)

def clusteringOf (l : Layout) (main : List Segment) : Clustering :=
  .rounds (AccessGraph.ofTiling l.tiling) (routesOf main) (routesOf main).length
    (.start (plantedOf l main) (routesOf main).length)

section Main

variable {main : List Segment}

theorem build_eq (hmain : (AccessGraph.ofTiling l.tiling).main? = some main) :
    build l = (clusteringOf l main).rooted.collapse.accumulate := by
  rw [build, hmain]
  rfl

theorem planted_plantedOf (l : Layout) (main : List Segment) :
    Planted (routesOf main) (leavesOf l main) (plantedOf l main) :=
  (planted_routes _).addLeaves _

theorem clustered_start_plantedOf (l : Layout) (main : List Segment) :
    Clustering.Clustered (routesOf main).length (plantedOf l main).nodes.length (plantedOf l main)
      (.start (plantedOf l main) (routesOf main).length) := by
  have hplanted := planted_plantedOf l main
  have hlength := hplanted.length
  have hgrown : Grown (routesOf main).length (plantedOf l main).nodes.length (plantedOf l main)
      (plantedOf l main) :=
    ⟨hplanted.forest _ le_rfl, ⟨by omega, le_rfl⟩, ⟨0, by simp⟩, fun _ _ hp => hp⟩
  exact Clustering.clustered_start hgrown rfl hplanted.top_iff

theorem clustered_clusteringOf (l : Layout) (main : List Segment) :
    Clustering.Clustered (routesOf main).length (plantedOf l main).nodes.length (plantedOf l main)
        (clusteringOf l main) ∧
      Clustering.outgoing (AccessGraph.ofTiling l.tiling) (routesOf main) (clusteringOf l main) = [] :=
  (clustered_start_plantedOf l main).rounds (clustered_start_plantedOf l main).led.roots_length_le

/-- The nodes of the tree before it is counted: routing, leaves, junctions. -/
theorem kinds_rooted (l : Layout) (main : List Segment) : ∃ k, (clusteringOf l main).rooted.kinds =
    (routesOf main).map SlotNodeKind.route ++ leavesOf l main ++ List.replicate k .junction := by
  obtain ⟨k, hk⟩ := (clustered_clusteringOf l main).1.joining.grown.kinds_eq
  rw [(planted_plantedOf l main).kinds_eq] at hk
  exact ⟨k, hk⟩

theorem isFresh_of_mem_rooted {k : SlotNodeKind} (hk : k ∈ (clusteringOf l main).rooted.kinds) :
    k.IsFresh := by
  obtain ⟨n, hkinds⟩ := kinds_rooted l main
  rw [hkinds] at hk
  simp only [List.mem_append, List.mem_map, List.mem_replicate] at hk
  rcases hk with (⟨a, -, rfl⟩ | hk) | ⟨-, rfl⟩
  · trivial
  · obtain ⟨s, -, hs⟩ := List.mem_filterMap.1 hk
    rcases leaf?_cases hs with ⟨kind, -, rfl⟩ | ⟨handle, template, entrance, rfl⟩
    · trivial
    · rfl
  · trivial

theorem bounded_of_kinds {u : SlotTree} (hu : u.kinds = (clusteringOf l main).rooted.kinds) :
    u.Bounded (layerRank (routesOf main).length (plantedOf l main).nodes.length) := by
  obtain ⟨hn, hbase⟩ := (clustered_clusteringOf l main).1.joining.grown.bounds
  intro i hi
  rw [length_eq_of_kinds hu] at hi ⊢
  exact layerRank_lt hn hbase hi

theorem pruned_rooted (l : Layout) (main : List Segment) :
    Pruned (clusteringOf l main).rooted (clusteringOf l main).rooted.collapse
      (layerRank (routesOf main).length (plantedOf l main).nodes.length) := by
  have hclustered := (clustered_clusteringOf l main).1
  exact (hclustered.joining.grown.forest.withRoot _).pruned_collapse hclustered.crowned

/-- Counting what is left after the junctions with an only child are out. -/
theorem reweighed_build (hmain : (AccessGraph.ofTiling l.tiling).main? = some main) :
    Stocked (build l) (layerRank (routesOf main).length (plantedOf l main).nodes.length) ∧
      Reweighed (clusteringOf l main).rooted.collapse (build l) := by
  have hpruned := pruned_rooted l main
  obtain ⟨hstocked, hre, -⟩ := hpruned.forest.accumulate (bounded_of_kinds hpruned.kinds)
    (fun k hk => isFresh_of_mem_rooted (hpruned.kinds ▸ hk)) hpruned.crowned
  rw [build_eq hmain]
  exact ⟨hstocked, hre⟩

/-- The tree of a layout is counted, and has under its root what the first cluster has. -/
theorem pruned_build (hmain : (AccessGraph.ofTiling l.tiling).main? = some main) :
    ∃ rank, Stocked (build l) rank ∧ Pruned (clusteringOf l main).rooted (build l) rank := by
  have hpruned := pruned_rooted l main
  obtain ⟨hstocked, hre⟩ := reweighed_build hmain
  refine ⟨_, hstocked, hstocked.forest, hstocked.top, hre.kinds.trans hpruned.kinds, fun x hx => ?_,
    fun x p hp hx hkind => ?_⟩
  · exact (hangs_congr hre.root hre.parent?).trans (hpruned.hangs_iff x hx)
  · exact (hre.parent? x).trans (hpruned.parent? x p hp hx hkind)

/-- What inner nodes do not have, the tree of a layout has from its leaves. -/
theorem flatMap_kinds_build (hmain : (AccessGraph.ofTiling l.tiling).main? = some main) {β : Type}
    {f : SlotNodeKind → List β} (hf : ∀ k, k.isLeaf = false → f k = []) :
    (build l).kinds.flatMap f = (leavesOf l main).flatMap f := by
  obtain ⟨rank, -, hpruned⟩ := pruned_build hmain
  obtain ⟨n, hkinds⟩ := kinds_rooted l main
  have hnone (ks : List SlotNodeKind) (hks : ∀ k ∈ ks, k.isLeaf = false) : ks.flatMap f = [] :=
    List.flatMap_eq_nil_iff.2 fun k hk => hf k (hks k hk)
  have hroutes : ∀ k ∈ (routesOf main).map SlotNodeKind.route, k.isLeaf = false := by
    intro k hk
    obtain ⟨r, -, rfl⟩ := List.mem_map.1 hk
    rfl
  have hjunctions : ∀ k ∈ List.replicate n SlotNodeKind.junction, k.isLeaf = false := by
    intro k hk
    rw [List.eq_of_mem_replicate hk]
    rfl
  rw [hpruned.kinds, hkinds, List.flatMap_append, List.flatMap_append, hnone _ hroutes, hnone _ hjunctions,
    List.nil_append, List.append_nil]

/-- A tree whose routing is joined counts the stock of all its leaves. -/
theorem build_stocked (hmain : (AccessGraph.ofTiling l.tiling).main? = some main)
    (hnodup : (routesOf main).Nodup) (hne : routesOf main ≠ [])
    (hjoined : ∀ a ∈ routesOf main, ∀ b ∈ routesOf main,
      Clustering.Bonded (AccessGraph.ofTiling l.tiling) (routesOf main) a b) :
    ∃ rank, Stocked (build l) rank ∧
      ∀ kind, (build l).capacity kind = ((leavesOf l main).map (SlotNodeKind.stock kind)).sum := by
  obtain ⟨hclustered, hnone⟩ := clustered_clusteringOf l main
  obtain ⟨r, hrooted⟩ := hclustered.rooted hnodup hne hnone hjoined
  -- collapsing and counting leave the kinds of the nodes alone
  obtain ⟨hforest, hkinds, r', hrooted'⟩ := hrooted.collapse (hclustered.joining.grown.forest.withRoot _)
  obtain ⟨k, hk⟩ := kinds_rooted l main
  have hkinds' := hkinds.trans hk
  obtain ⟨hstocked, -, hcapacity⟩ := hrooted'.accumulate hforest (bounded_of_kinds hkinds)
    fun k hk => isFresh_of_mem_rooted (hkinds ▸ hk)
  rw [build_eq hmain]
  refine ⟨_, hstocked, fun kind => ?_⟩
  rw [hcapacity, hkinds', List.map_append, List.sum_append, List.map_append, List.sum_append]
  have hinner (ks : List SlotNodeKind) (hks : ∀ k ∈ ks, k.isLeaf = false) :
      (ks.map (SlotNodeKind.stock kind)).sum = 0 := by
    refine List.sum_eq_zero fun n hn => ?_
    obtain ⟨k, hk, rfl⟩ := List.mem_map.1 hn
    exact SlotNodeKind.stock_of_inner (hks k hk) kind
  rw [hinner _ (by simp [SlotNodeKind.isLeaf]), hinner (List.replicate _ _) (by simp [SlotNodeKind.isLeaf])]
  omega

end Main

def offered (t : SlotTree) : List (SlotKind × Cell) := t.kinds.flatMap SlotNodeKind.slots

theorem leaf?_slots (h : leaf? l g routes s = some k) : (k.slots.map Prod.snd).Nodup ∧
    ∀ p ∈ k.slots, p.1.role? = some s.role ∧ p.2 ∈ s.rect := by
  rcases leaf?_cases h with ⟨kind, hkind, rfl⟩ | ⟨handle, template, entrance, rfl⟩
  · refine ⟨?_, ?_⟩
    · rw [SlotNodeKind.slots, List.map_map]
      simpa [Function.comp_def] using s.rect.nodup_cells
    · intro p hp
      obtain ⟨c, hc, rfl⟩ := List.mem_map.1 hp
      exact ⟨hkind, Rect.mem_of_mem_cells hc⟩
  · simp [SlotNodeKind.slots]

theorem leaf?_stock {kind : SlotKind} {role : Role} (hkind : kind.role? = some role)
    (hacc : s.role = role → accesses g routes s.id ≠ []) :
    ((leaf? l g routes s).map (SlotNodeKind.stock kind)).getD 0 =
      if s.role == role then s.rect.cellCount else 0 := by
  by_cases hrole : s.role = role
  · have hopen : leaf? l g routes s = leafKind? l s := by
      rw [leaf?, if_neg (by simpa using hacc hrole)]
    have hleaf : leafKind? l s = some (.cells s.id kind s.rect.cells) := by
      cases kind with
      | register =>
          cases hkind
          rw [leafKind?, hrole]
      | io =>
          cases hkind
          rw [leafKind?, hrole]
      | factory template => cases hkind
    rw [hopen, hleaf, if_pos (by simpa using hrole)]
    simp [SlotNodeKind.stock, Rect.length_cells]
  · rw [if_neg (by simpa using hrole)]
    cases h : leaf? l g routes s with
    | none => rfl
    | some k =>
        rcases leaf?_cases h with ⟨kind', hkind', rfl⟩ | ⟨handle, template, entrance, rfl⟩
        · have hne : kind ≠ kind' := by
            rintro rfl
            rw [hkind, Option.some.injEq] at hkind'
            exact hrole hkind'.symm
          simp [SlotNodeKind.stock, hne]
        · have hne : kind ≠ .factory template := by
            rintro rfl
            cases hkind
          simp [SlotNodeKind.stock, hne]

theorem sum_filterMap {α β : Type} {f : α → Option β} {w : β → Nat} {p : α → Bool} {v : α → Nat}
    {as : List α} (h : ∀ a ∈ as, ((f a).map w).getD 0 = if p a then v a else 0) :
    ((as.filterMap f).map w).sum = ((as.filter p).map v).sum := by
  induction as with
  | nil => rfl
  | cons a as ih =>
      have hrest := ih fun b hb => h b (List.mem_cons_of_mem _ hb)
      have ha := h a List.mem_cons_self
      rw [List.filterMap_cons, List.filter_cons]
      cases hf : f a with
      | none =>
          rw [hf] at ha
          dsimp only
          split
          · next hp =>
              rw [if_pos hp] at ha
              rw [List.map_cons, List.sum_cons, ← ha, hrest]
              simp
          · exact hrest
      | some b =>
          rw [hf] at ha
          simp only [Option.map_some, Option.getD_some] at ha
          dsimp only
          rw [List.map_cons, List.sum_cons, ha, hrest]
          split
          · rw [List.map_cons, List.sum_cons]
          · omega

section Served

open AccessGraph

variable {grid : Rect} {anchor : Cell} {main : List Segment}

theorem mem_routesOf (hmain : l.tiling.Comprised main) {a : Nat} :
    a ∈ routesOf main ↔ ∃ s ∈ l.tiling.segments, s.role.isRoute = true ∧ s.id = a := by
  simp only [routesOf, List.mem_map, List.mem_filter, and_assoc]
  constructor
  · rintro ⟨s, hs, hroute, rfl⟩
    exact ⟨s, hmain.mem_segments s hs, hroute, rfl⟩
  · rintro ⟨s, hs, hroute, rfl⟩
    exact ⟨s, hmain.mem_main s hs (.inl hroute), hroute, rfl⟩

/-- Routing that is joined to routing of the main component belongs to it. -/
theorem bonded_of_routeJoined (h : l.tiling.WellTiled) (hmain : (ofTiling l.tiling).main? = some main)
    {u : Segment} (hs : s ∈ main) (hsr : s.role.isRoute = true) (hreach : l.tiling.RouteJoined s u) :
    u ∈ main ∧ u.role.isRoute = true ∧ Clustering.Bonded (ofTiling l.tiling) (routesOf main) s.id u.id := by
  have hmem {v : Segment} (hv : v ∈ main) (hvr : v.role.isRoute = true) : v.id ∈ routesOf main :=
    List.mem_map.2 ⟨v, List.mem_filter.2 ⟨hv, hvr⟩, rfl⟩
  obtain ⟨leader, -, -, hvertex⟩ := mem_of_main? h hmain
  induction hreach with
  | refl => exact ⟨hs, hsr, .refl⟩
  | @tail v w _ hstep ih =>
      obtain ⟨hlinked, hw, hwr⟩ := hstep
      obtain ⟨hv, hvr, hbonded⟩ := ih
      have hwv := mem_vertices.2 ⟨hw, .inl hwr⟩
      have hwmain := mem_main_of_linked h hmain hwv hv hlinked.symm
      refine ⟨hwmain, hwr, ?_⟩
      by_cases heq : v = w
      · exact heq ▸ hbonded
      · exact hbonded.tail ⟨hmem hv hvr, hmem hwmain hwr, mem_neighbours h ((hvertex v).1 hv).1 hwv heq hlinked⟩

theorem joined_routesOf (h : l.tiling.Served grid anchor) (hmain? : (ofTiling l.tiling).main? = some main)
    (hmain : l.tiling.Comprised main) : ∀ a ∈ routesOf main, ∀ b ∈ routesOf main,
      Clustering.Bonded (ofTiling l.tiling) (routesOf main) a b := by
  intro a ha b hb
  obtain ⟨s, hs, hsr, rfl⟩ := (mem_routesOf hmain).1 ha
  obtain ⟨u, hu, hur, rfl⟩ := (mem_routesOf hmain).1 hb
  exact (bonded_of_routeJoined h.wellTiled hmain? (hmain.mem_main s hs (.inl hsr)) hsr
    (h.linked_routes hs hsr hu hur)).2.2

/-- A segment that is linked to routing has accesses. -/
theorem accesses_ne_nil_of_linked (h : l.tiling.WellTiled) (hmain : l.tiling.Comprised main) {u : Segment}
    (hs : s ∈ (ofTiling l.tiling).vertices) (hsr : s.role.isRoute = false) (hu : u ∈ l.tiling.segments)
    (hur : u.role.isRoute = true) (hlinked : s.Linked u) :
    accesses (ofTiling l.tiling) (routesOf main) s.id ≠ [] := by
  have hne : s ≠ u := by
    rintro rfl
    rw [hsr] at hur
    cases hur
  have hmem := mem_neighbours h hs (mem_vertices.2 ⟨hu, .inl hur⟩) hne hlinked
  have hroute := (mem_routesOf hmain).2 ⟨u, hu, hur, rfl⟩
  refine List.ne_nil_of_mem (mem_sortBy.2 (List.mem_map.2 ⟨u.id, ?_, rfl⟩))
  exact List.mem_filter.2 ⟨hmem, decide_eq_true hroute⟩

theorem accesses_ne_nil (h : l.tiling.Served grid anchor) (hmain : l.tiling.Comprised main)
    (hs : s ∈ l.tiling.segments) (hslot : s.role.IsSlot) :
    accesses (ofTiling l.tiling) (routesOf main) s.id ≠ [] := by
  obtain ⟨u, hu, hur, hlinked⟩ := h.exists_access hs hslot
  have hsr : s.role.isRoute = false := by rcases hslot with hrole | hrole <;> rw [hrole] <;> rfl
  exact accesses_ne_nil_of_linked h.wellTiled hmain (Tiling.Served.mem_vertices_of_isSlot hs hslot) hsr hu hur
    hlinked

theorem nodup_leavesOf (h : l.tiling.WellTiled) (hascending : main.Pairwise fun s u => s.id < u.id)
    (hmem : ∀ s ∈ main, s ∈ l.tiling.segments) :
    (((leavesOf l main).flatMap SlotNodeKind.slots).map Prod.snd).Nodup := by
  rw [List.map_flatMap]
  refine List.nodup_flatMap.2 ⟨fun k hk => ?_, ?_⟩
  · obtain ⟨s, -, hs⟩ := List.mem_filterMap.1 hk
    exact (leaf?_slots hs).1
  · refine List.pairwise_filterMap.2 ((hascending.filter _).imp_of_mem ?_)
    intro s u hs hu hlt k hk k' hk' c hc hc'
    obtain ⟨p, hp, rfl⟩ := List.mem_map.1 hc
    obtain ⟨q, hq, heq⟩ := List.mem_map.1 hc'
    have hcs := ((leaf?_slots hk).2 p hp).2
    have hcu := heq ▸ ((leaf?_slots hk').2 q hq).2
    have hsegment (v : Segment) (hv : v ∈ main.filter fun s => !s.role.isRoute) :
        v ∈ l.tiling.segments := hmem v (List.mem_filter.1 hv).1
    exact h.apart s (hsegment s hs) u (hsegment u hu) (Nat.ne_of_lt hlt) _ hcs hcu

/-- A cell on offer is of the role its kind asks for. -/
theorem roleAt?_of_mem_leavesOf (h : l.tiling.WellTiled) (hmem : ∀ s ∈ main, s ∈ l.tiling.segments)
    {p : SlotKind × Cell} (hp : p ∈ (leavesOf l main).flatMap SlotNodeKind.slots) :
    ∃ role, p.1.role? = some role ∧ l.tiling.roleAt? p.2 = some role := by
  obtain ⟨k, hk, hpk⟩ := List.mem_flatMap.1 hp
  obtain ⟨s, hs, hleaf⟩ := List.mem_filterMap.1 hk
  obtain ⟨hrole, hcell⟩ := (leaf?_slots hleaf).2 p hpk
  exact ⟨s.role, hrole, h.roleAt?_eq (hmem s (List.mem_filter.1 hs).1) hcell⟩

theorem sum_leavesOf (h : l.tiling.Served grid anchor) (hmain : l.tiling.Comprised main)
    {kind : SlotKind} {role : Role} (hkind : kind.role? = some role) :
    ((leavesOf l main).map (SlotNodeKind.stock kind)).sum =
      ((l.tiling.segments.filter fun s => s.role == role).map fun s => s.rect.cellCount).sum := by
  have hslot := SlotKind.isSlot_of_role? hkind
  have hinner : role.isRoute = false := by rcases hslot with rfl | rfl <;> rfl
  rw [leavesOf, sum_filterMap fun s hs => leaf?_stock hkind fun hrole =>
    accesses_ne_nil h hmain (hmain.mem_segments s (List.mem_filter.1 hs).1) (hrole ▸ hslot)]
  refine (List.Perm.map _ ?_).sum_eq
  have hnodup {segments : List Segment} (hasc : segments.Pairwise fun s u => s.id < u.id) :
      segments.Nodup := by
    refine hasc.imp ?_
    rintro s u hlt rfl
    exact Nat.lt_irrefl _ hlt
  refine (List.perm_ext_iff_of_nodup ((hnodup hmain.ascending).filter _ |>.filter _)
    ((hnodup h.wellTiled.ascending).filter _)).2 fun s => ?_
  simp only [List.mem_filter, beq_iff_eq, Bool.not_eq_true']
  constructor
  · rintro ⟨⟨hs, -⟩, hrole⟩
    exact ⟨hmain.mem_segments s hs, hrole⟩
  · rintro ⟨hs, rfl⟩
    exact ⟨⟨hmain.mem_main s hs (.inr hslot), hinner⟩, rfl⟩

/-- The tree of a layout whose routing serves it has the leaves of the main component, and counts them. -/
theorem exists_main_build (h : l.tiling.Served grid anchor) :
    ∃ main rank, (ofTiling l.tiling).main? = some main ∧ l.tiling.Comprised main ∧ Stocked (build l) rank ∧
      (∀ {β : Type} (f : SlotNodeKind → List β), (∀ k, k.isLeaf = false → f k = []) →
        (build l).kinds.flatMap f = (leavesOf l main).flatMap f) ∧
      ∀ kind, (build l).capacity kind = ((leavesOf l main).map (SlotNodeKind.stock kind)).sum := by
  obtain ⟨main, hmain?, hmain⟩ := h.exists_main
  have hnodup := nodup_routesOf hmain.ascending
  have hne : routesOf main ≠ [] := by
    obtain ⟨s, hs, -, hroute⟩ := h.exists_segment h.anchored
    exact List.ne_nil_of_mem ((mem_routesOf hmain).2 ⟨s, hs, hroute, rfl⟩)
  obtain ⟨rank, hstocked, hcapacity⟩ := build_stocked hmain? hnodup hne (joined_routesOf h hmain? hmain)
  exact ⟨main, rank, hmain?, hmain, hstocked, fun f hf => flatMap_kinds_build hmain? hf, hcapacity⟩

/-- The tree of a layout whose routing serves it offers every slot once. -/
theorem exists_stocked_build (h : l.tiling.Served grid anchor) :
    ∃ rank, Stocked (build l) rank ∧ ((build l).offered.map Prod.snd).Nodup ∧
      (∀ p ∈ (build l).offered, ∃ role, p.1.role? = some role ∧ l.tiling.roleAt? p.2 = some role) ∧
      ∀ kind role, kind.role? = some role → (build l).capacity kind =
        ((l.tiling.segments.filter fun s => s.role == role).map fun s => s.rect.cellCount).sum := by
  obtain ⟨main, rank, -, hmain, hstocked, hleaves, hcapacity⟩ := exists_main_build h
  have hoffered : (build l).offered = (leavesOf l main).flatMap SlotNodeKind.slots :=
    hleaves _ fun _ => SlotNodeKind.slots_of_inner
  refine ⟨rank, hstocked, ?_, ?_, ?_⟩
  · rw [hoffered]
    exact nodup_leavesOf h.wellTiled hmain.ascending hmain.mem_segments
  · intro p hp
    exact roleAt?_of_mem_leavesOf h.wellTiled hmain.mem_segments (hoffered ▸ hp)
  · intro kind role hkind
    rw [hcapacity, sum_leavesOf h hmain hkind]

end Served

end SlotTree

end SurfaceFabric
