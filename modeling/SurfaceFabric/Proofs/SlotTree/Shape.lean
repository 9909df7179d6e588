import SurfaceFabric.Proofs.SlotTree.Ledger

/-!
The shape of a slot tree. Clustering puts every junction over at least one node. Taking out a junction with an
only child changes the number of children of no other node, so one pass leaves no junction with an only child,
and one without children hangs under nothing. What lies below the root is then a tree in which every junction
branches, and requests change counts, stocks and the order of queues but no link.
-/

namespace SurfaceFabric.SlotTree

variable {t u : SlotTree} {rank : Nat → Nat} {i j p c r : Nat}

/-! ### Junctions with children -/

/-- No junction is without children. -/
def Peopled (t : SlotTree) : Prop := ∀ i, t.kinds[i]? = some .junction → t.children i ≠ []

theorem children_foldl_attach (members : List Nat) (hp : p < t.nodes.length) (j : Nat) :
    (members.foldl (fun u m => u.attach p m) t).kinds = t.kinds ∧
      (members.foldl (fun u m => u.attach p m) t).children j =
        if j = p then t.children j ++ members else t.children j := by
  induction members generalizing t with
  | nil => exact ⟨rfl, by split <;> simp⟩
  | cons m rest ih =>
      obtain ⟨hkinds, hchildren⟩ := ih (t := t.attach p m) (by rwa [length_attach])
      rw [List.foldl_cons, hkinds, hchildren, children_attach hp]
      refine ⟨kinds_attach .., ?_⟩
      split
      · rw [List.append_assoc]
        rfl
      · rfl

theorem Peopled.cover (h : Peopled t) {members : List Nat} (hne : members ≠ []) : Peopled (t.cover members) := by
  intro i hi
  have hlast : t.nodes.length < (t.push (.isolated .junction 0)).nodes.length := by
    rw [length_push]
    omega
  obtain ⟨hkinds, hchildren⟩ := children_foldl_attach members hlast i
  rw [SlotTree.cover, hchildren, children_push_isolated]
  rw [SlotTree.cover, hkinds, kinds_push] at hi
  split
  · simp [hne]
  · next hold =>
      have hlt : i < t.kinds.length := by
        have hlt := (List.getElem?_eq_some_iff.1 hi).1
        rw [List.length_append, List.length_singleton, length_kinds] at hlt
        rw [length_kinds]
        omega
      exact h i (by rwa [List.getElem?_append_left hlt] at hi)

namespace Clustering

variable {cl : Clustering} {g : AccessGraph} {routes : List Nat}

theorem peopled_start (h : Peopled t) (n : Nat) : Peopled (start t n).tree := by
  have hrun (ks : List Nat) (cl : Clustering) (hcl : Peopled cl.tree) :
      Peopled (ks.foldl Clustering.raise cl).tree := by
    induction ks generalizing cl with
    | nil => exact hcl
    | cons k ks ih => exact ih _ (hcl.cover (List.cons_ne_nil _ _))
  exact hrun _ _ h

/-- A leader that leads itself is among those whose tops get a junction. -/
theorem peopled_join (h : Peopled cl.tree) {former : List Nat} {leader : Nat} (hmem : leader ∈ former)
    (hself : cl.classes.leader leader = leader) (hlt : leader < cl.tops.length) :
    Peopled (join former cl leader).tree := by
  have htop : cl.tops[leader] ∈ (former.filter fun l => cl.classes.leader l == leader).filterMap
      fun l => cl.tops[l]? := by
    refine List.mem_filterMap.2 ⟨leader, List.mem_filter.2 ⟨hmem, beq_iff_eq.2 hself⟩, ?_⟩
    exact List.getElem?_eq_getElem hlt
  unfold join
  dsimp only
  split
  · exact h
  · exact h.cover (List.ne_nil_of_mem htop)

theorem length_tops_join (former : List Nat) (cl : Clustering) (leader : Nat) :
    (join former cl leader).tops.length = cl.tops.length := by
  unfold join
  dsimp only
  split <;> exact List.length_set

theorem peopled_foldl_join {former leaders : List Nat} (h : Peopled cl.tree)
    (hleaders : ∀ l ∈ leaders, l ∈ former ∧ cl.classes.leader l = l ∧ l < cl.tops.length) :
    Peopled (leaders.foldl (join former) cl).tree := by
  induction leaders generalizing cl with
  | nil => exact h
  | cons l rest ih =>
      obtain ⟨⟨hmem, hself, hlt⟩, hrest⟩ := List.forall_mem_cons.1 hleaders
      refine ih (peopled_join h hmem hself hlt) fun k hk => ?_
      rw [classes_join, length_tops_join]
      exact hrest k hk

theorem Clustered.peopled_rounds {base : Nat} {planted : SlotTree}
    (h : Clustered routes.length base planted cl) (hpeopled : Peopled cl.tree) (fuel : Nat) :
    Peopled (Clustering.rounds g routes fuel cl).tree := by
  induction fuel generalizing cl with
  | zero => exact hpeopled
  | succ fuel ih =>
      rw [Clustering.rounds]
      split
      · exact hpeopled
      · have hlinks : ∀ l ∈ cl.chosen (outgoing g routes cl), l.i < routes.length ∧ l.j < routes.length := by
          intro l hl
          obtain ⟨leader, he⟩ := exists_of_mem_chosen hl
          obtain ⟨-, hi, hj, -⟩ := h.of_mem_outgoing he
          exact ⟨hi, hj⟩
        obtain ⟨hco, -, -, hnext⟩ := h.merge hlinks rfl
        refine ih hnext (peopled_foldl_join hpeopled fun l hl => ?_)
        obtain ⟨hlt, hself⟩ := hco.led.mem_roots.1 hl
        exact ⟨hco.roots_subset h.led hl, hself, h.joining.length_tops ▸ hlt⟩

end Clustering

theorem peopled_clusteringOf (l : Layout) (main : List Segment) : Peopled (clusteringOf l main).tree := by
  refine (clustered_start_plantedOf l main).peopled_rounds (Clustering.peopled_start (fun i hi => ?_) _) _
  -- before the clustering there are no junctions
  rw [(planted_plantedOf l main).kinds_eq] at hi
  rcases List.mem_append.1 (List.mem_of_getElem? hi) with hroute | hleaf
  · obtain ⟨a, -, ha⟩ := List.mem_map.1 hroute
    cases ha
  · cases isLeaf_of_mem_leavesOf hleaf

/-! ### Taking out junctions -/

/-- A junction without children is a node by itself. -/
def Spare (t : SlotTree) : Prop :=
  ∀ i, t.kinds[i]? = some .junction → t.children i = [] → t.parent? i = none ∧ t.root ≠ some i

theorem length_children_promote (hne : j ≠ i) : ((t.promote i).children j).length = (t.children j).length := by
  rcases promote_cases t i with heq | ⟨c, hs⟩
  · rw [heq]
  · rw [children_promote hs, if_neg hne]
    split
    · exact List.length_map ..
    · rfl

structure Thinned (t : SlotTree) (done : List Nat) : Prop where
  spare : t.Spare
  branching : ∀ i ∈ done, t.kinds[i]? = some .junction → (t.children i).length ≠ 1

theorem Forest.spare_promote (h : Forest t rank) (hc : t.Crowned) (hspare : t.Spare) (hs : t.Single i c) :
    (t.promote i).Spare := by
  have hmem : c ∈ t.children i := by simp [hs.only]
  have hci : c ≠ i := (h.ne_of_mem hmem).symm
  intro j hj hempty
  rw [kinds_promote] at hj
  rw [h.parent?_promote hs, hs.root_promote]
  by_cases hji : j = i
  · subst hji
    rw [if_pos rfl]
    refine ⟨rfl, ?_⟩
    split
    · simpa using hci
    · next hroot =>
        intro hr
        exact hroot ⟨(hc j hr).2, hr⟩
  · have hold : t.children j = [] := by
      rw [← List.length_eq_zero_iff, ← length_children_promote hji, hempty, List.length_nil]
    obtain ⟨htop, hroot⟩ := hspare j hj hold
    have hjc : j ≠ c := by
      rintro rfl
      rw [(hs.parent?_eq_iff h).2 rfl] at htop
      cases htop
    rw [if_neg hji, if_neg hjc]
    refine ⟨htop, ?_⟩
    split
    · simpa using hjc.symm
    · exact hroot

theorem Forest.thinned_promote (h : Forest t rank) (hc : t.Crowned) {done : List Nat} (hthin : Thinned t done)
    (i : Nat) : Thinned (t.promote i) (done ++ [i]) := by
  have hbefore (j : Nat) (hj : j ∈ done) (hne : j ≠ i) (hk : t.kinds[j]? = some .junction) :
      ((t.promote i).children j).length ≠ 1 := by
    rw [length_children_promote hne]
    exact hthin.branching j hj hk
  by_cases hsingle : ∃ c, t.Single i c
  · obtain ⟨c, hs⟩ := hsingle
    refine ⟨h.spare_promote hc hthin.spare hs, fun j hj hk => ?_⟩
    rw [kinds_promote] at hk
    by_cases hji : j = i
    · rw [children_promote hs, if_pos hji]
      simp
    · exact hbefore j ((List.mem_append.1 hj).resolve_right (by simpa using hji)) hji hk
  · have heq : t.promote i = t := (promote_cases t i).resolve_right hsingle
    rw [heq]
    refine ⟨hthin.spare, fun j hj hk hone => ?_⟩
    obtain ⟨c, honly⟩ := List.length_eq_one_iff.1 hone
    rcases List.mem_append.1 hj with hj | hj
    · exact hthin.branching j hj hk hone
    · rw [List.mem_singleton.1 hj] at hk honly
      exact hsingle ⟨c, hk, honly⟩

/-- After the pass every junction under the root has two children or more. -/
theorem Forest.branching_collapse (h : Forest t rank) (hc : t.Crowned) (hpeopled : Peopled t)
    (hr : t.collapse.root = some r) (hi : t.collapse.Below r i) (hk : t.collapse.kinds[i]? = some .junction) :
    2 ≤ (t.collapse.children i).length := by
  have hrun (l : List Nat) : Forest (l.foldl SlotTree.promote t) rank ∧ (l.foldl SlotTree.promote t).Crowned ∧
      Thinned (l.foldl SlotTree.promote t) l := by
    induction l using List.reverseRecOn with
    | nil => exact ⟨h, hc, fun j hj hempty => absurd hempty (hpeopled j hj), by simp⟩
    | append_singleton l i ih =>
        obtain ⟨hforest, hcrowned, hthin⟩ := ih
        rw [List.foldl_append, List.foldl_cons, List.foldl_nil]
        exact ⟨hforest.promote i, hforest.crowned_promote hcrowned i, hforest.thinned_promote hcrowned hthin i⟩
  obtain ⟨hforest, hcrowned, hthin⟩ := hrun (List.range t.nodes.length)
  have hpruned := h.pruned_collapse hc
  have hlt : i < t.nodes.length := by
    rw [hpruned.kinds, kinds_getElem?] at hk
    obtain ⟨n, hn, -⟩ := Option.map_eq_some_iff.1 hk
    exact lt_length_of_node? hn
  have hone := hthin.branching i (List.mem_range.2 hlt) hk
  have hsome : t.collapse.children i ≠ [] := by
    intro hempty
    obtain ⟨htop, hroot⟩ := hthin.spare i hk hempty
    have hclimb := hpruned.forest.climbs_iff.2 hi
    exact hroot (hclimb.eq_of_top htop ▸ hr)
  have hpos := List.length_pos_iff.2 hsome
  have hone' : (t.collapse.children i).length ≠ 1 := hone
  omega

/-! ### The tree below the root -/

theorem exists_trail_of_below (h : t.Below i j) : ∃ path, Trail t i j path := by
  induction h using Relation.ReflTransGen.head_induction_on with
  | refl => exact ⟨_, .done j⟩
  | head hchild _ ih =>
      obtain ⟨path, htrail⟩ := ih
      exact ⟨_, .step hchild htrail⟩

/-- There is one way down to a node. -/
theorem Forest.trail_unique (h : Forest t rank) {path path' : List Nat} (htrail : Trail t i j path)
    (htrail' : Trail t i j path') : path = path' := by
  -- a child that leads back to where the way began would rank below itself
  have hback {i c : Nat} {path : List Nat} (hc : c ∈ t.children i) (hrest : Trail t c i path) : False := by
    have hlt := h.rank_lt i c hc
    have hle := h.rank_le_of_below hrest.reaches
    omega
  induction htrail generalizing path' with
  | done i =>
      cases htrail' with
      | done => rfl
      | step hchild hrest => exact (hback hchild hrest).elim
  | step hchild hrest ih =>
      cases htrail' with
      | done => exact (hback hchild hrest).elim
      | step hchild' hrest' =>
          obtain rfl := h.eq_of_below hchild hchild' hrest.reaches hrest'.reaches
          rw [ih hrest']

/-- What lies below the root is a tree: it has no node above it, there is one way to each node, and children are
those that have a node for their parent. Leaves hang off routing and have no children, junctions branch, and
every queue holds the children. -/
structure TreeShaped (t : SlotTree) (r : Nat) : Prop where
  root : t.root = some r
  top : t.parent? r = none
  once : ∀ i, t.Below r i → i < t.nodes.length ∧ ∃! path, Trail t r i path
  nodup : ∀ i, (t.children i).Nodup
  parent_iff : ∀ p c, c ∈ t.children p ↔ t.parent? c = some p
  leaf_children : ∀ i k, t.kinds[i]? = some k → k.isLeaf = true → t.children i = []
  leaf_parent : ∀ i k, t.kinds[i]? = some k → k.isLeaf = true →
    ∃ p a, t.parent? i = some p ∧ t.kinds[p]? = some (.route a)
  branching : ∀ i, t.Below r i → t.kinds[i]? = some .junction → 2 ≤ (t.children i).length
  queue_perm : ∀ i, (t.queue i).Perm (t.children i)

theorem Stocked.treeShaped (h : Stocked t rank) (hr : t.root = some r)
    (hleaf : ∀ i k, t.kinds[i]? = some k → k.isLeaf = true →
      ∃ p a, t.parent? i = some p ∧ t.kinds[p]? = some (.route a))
    (hbranching : ∀ i, t.Below r i → t.kinds[i]? = some .junction → 2 ≤ (t.children i).length) :
    TreeShaped t r where
  root := hr
  top := (h.top r hr).2
  once i hi := by
    obtain ⟨path, htrail⟩ := exists_trail_of_below hi
    exact ⟨h.forest.below_lt (h.top r hr).1 hi, path, htrail,
      fun path' htrail' => h.forest.trail_unique htrail' htrail⟩
  nodup := h.forest.nodup
  parent_iff := h.forest.parent_iff
  leaf_children := h.forest.childless
  leaf_parent := hleaf
  branching := hbranching
  queue_perm := h.forest.queue_perm

theorem exists_treeShaped_build {l : Layout} (h : l.tiling.WellTiled) {s : Segment} (hs : s ∈ l.tiling.segments)
    (hroute : s.role.isRoute = true) : ∃ r, TreeShaped (build l) r := by
  obtain ⟨u, hu, hur, hleader⟩ :=
    AccessGraph.exists_mainLeader h (AccessGraph.mem_vertices.2 ⟨hs, .inl hroute⟩) hroute
  obtain ⟨main, hmain⟩ : ∃ main, (AccessGraph.ofTiling l.tiling).main? = some main := by
    rw [AccessGraph.main?, hleader]
    exact ⟨_, rfl⟩
  obtain ⟨leader, hleader', -, hmem⟩ := AccessGraph.mem_of_main? h hmain
  rw [hleader, Option.some.injEq] at hleader'
  have humain : u.id ∈ routesOf main :=
    List.mem_map.2 ⟨u, List.mem_filter.2 ⟨(hmem u).2 ⟨hu, hleader'⟩, hur⟩, rfl⟩
  obtain ⟨q, hq⟩ := List.getElem?_of_mem humain
  obtain ⟨-, -, -, r, hr, -⟩ := exists_hanging hmain hq
  obtain ⟨hstocked, hre⟩ := reweighed_build hmain
  refine ⟨r, hstocked.treeShaped hr (fun i k hk hleaf => ?_) fun i hi hk => ?_⟩
  · obtain ⟨p, a, ha, hp⟩ := exists_parent_of_isLeaf hmain hk hleaf
    exact ⟨p, a, hp, kinds_build_route hmain ha⟩
  · rw [hre.root] at hr
    rw [hre.below] at hi
    rw [hre.kinds] at hk
    rw [hre.children]
    have hclustered := (clustered_clusteringOf l main).1
    exact (hclustered.joining.grown.forest.withRoot _).branching_collapse hclustered.crowned
      (peopled_clusteringOf l main) hr hi hk

/-! ### Requests -/

/-- Links and inner nodes are all that the shape depends on. -/
theorem TreeShaped.of_sameLinks (h : TreeShaped t r) (hlinks : SameLinks t u) (hstocked : Stocked u rank)
    {leaf : Nat} {k rest : SlotNodeKind} (hk : t.kinds[leaf]? = some k) (hleaf : k.isLeaf = true)
    (hrest : rest.isLeaf = true) (hkinds : u.kinds = t.kinds.set leaf rest) : TreeShaped u r := by
  have hinner (i : Nat) (m : SlotNodeKind) (hm : m.isLeaf = false) :
      u.kinds[i]? = some m ↔ t.kinds[i]? = some m := by
    rw [hkinds, List.getElem?_set]
    split
    · next heq =>
        subst heq
        rw [hk]
        constructor
        · intro hset
          split at hset
          · cases hset
            rw [hm] at hrest
            cases hrest
          · cases hset
        · intro hset
          cases hset
          rw [hm] at hleaf
          cases hleaf
    · rfl
  refine hstocked.treeShaped (hlinks.root.trans h.root) (fun i m hm hisLeaf => ?_) fun i hi hm => ?_
  · -- what is a leaf now was a leaf before
    have hold : ∃ m', t.kinds[i]? = some m' ∧ m'.isLeaf = true := by
      rw [hkinds, List.getElem?_set] at hm
      split at hm
      · next heq => exact ⟨k, heq ▸ hk, hleaf⟩
      · exact ⟨m, hm, hisLeaf⟩
    obtain ⟨m', hm', hisLeaf'⟩ := hold
    obtain ⟨p, a, hp, ha⟩ := h.leaf_parent i m' hm' hisLeaf'
    exact ⟨p, a, (hlinks.parent? i).trans hp, (hinner p _ rfl).2 ha⟩
  · rw [hlinks.below] at hi
    rw [hlinks.children]
    exact h.branching i hi ((hinner i _ rfl).1 hm)

inductive Requested (t : SlotTree) : SlotTree → Prop
  | start : Requested t t
  | alloc {u v : SlotTree} {kind : SlotKind} {slot : Slot} :
      Requested t u → u.alloc? kind = some (slot, v) → Requested t v
  | take {u v : SlotTree} {c : Cell} : Requested t u → u.take? c = some v → Requested t v

/-- Requests keep the shape. -/
theorem Requested.treeShaped (h : Requested t u) (hsolvent : Solvent t rank) (hshape : TreeShaped t r) :
    Solvent u rank ∧ TreeShaped u r := by
  induction h with
  | start => exact ⟨hsolvent, hshape⟩
  | alloc _ halloc ih =>
      obtain ⟨hu, hshape⟩ := ih
      obtain ⟨_, -, hbalanced⟩ := hu.balanced_alloc halloc
      obtain ⟨-, leaf, k, rest, -, -, -, hk, hands, hkinds, hstocked, hlinks, -⟩ := hu.alloc halloc
      obtain ⟨hleaf, hrest⟩ := hands.lacks.isLeaf
      exact ⟨hbalanced.solvent hu, hshape.of_sameLinks hlinks hstocked hk hleaf hrest hkinds⟩
  | take _ htake ih =>
      obtain ⟨hu, hshape⟩ := ih
      obtain ⟨leaf, segment, kind, left, hk, -, hkinds, hstocked, hlinks⟩ := hu.take htake
      exact ⟨(hu.balanced_take htake).solvent hu, hshape.of_sameLinks hlinks hstocked hk rfl rfl hkinds⟩

/-- The slot tree of a layout with routing is a rooted tree in which every junction branches, and stays one under
all requests. A request that is not met was not counted at the root, so it is not passed down any queue. -/
theorem slot_tree_shaped {l : Layout} {height width : Nat} {ops : List Tiling.Operation}
    (hreach : (Tiling.ofSize height width).performAll ops = .ok l.tiling)
    (hroute : ∃ s ∈ l.tiling.segments, s.role.isRoute = true) :
    ∃ r, ∀ u, Requested (build l) u →
      TreeShaped u r ∧ ∀ kind, u.alloc? kind = none → u.capacity kind = 0 := by
  have hwell := (Tiling.wellTiled_ofSize height width).changes (Tiling.changes_of_performAll hreach)
  obtain ⟨s, hs, hroute⟩ := hroute
  obtain ⟨r, hshape⟩ := exists_treeShaped_build hwell hs hroute
  obtain ⟨rank, hsolvent⟩ := exists_solvent_build hwell
  refine ⟨r, fun u hu => ?_⟩
  obtain ⟨hsolvent', hshape'⟩ := hu.treeShaped hsolvent hshape
  exact ⟨hshape', fun kind hnone => hsolvent'.capacity_eq_zero hnone⟩

namespace Fork

/-- A register above two routing segments that lie side by side. -/
def ops : List Tiling.Operation :=
  [.partition 0 [.taken .register ⟨0, 0, 1, 2⟩, .taken .route ⟨1, 0, 2, 1⟩, .taken .route ⟨1, 1, 2, 2⟩]]

def layout : Layout :=
  .ofTiling ⟨2, 2, [⟨1, ⟨0, 0, 1, 2⟩, true, .register, [], [2, 3], [], []⟩,
    ⟨2, ⟨1, 0, 2, 1⟩, true, .route, [1], [], [], [3]⟩, ⟨3, ⟨1, 1, 2, 2⟩, true, .route, [1], [], [2], []⟩], 4⟩ 0

end Fork

/-- The junctions over the single routing segments are out, and the one over both is the root. -/
theorem fork_shaped : (Tiling.ofSize 2 2).performAll Fork.ops = .ok Fork.layout.tiling ∧
    (build Fork.layout).kinds[5]? = some .junction ∧ (build Fork.layout).children 5 = [0, 1] ∧
    ∀ u, Requested (build Fork.layout) u → TreeShaped u 5 := by
  have hreach : (Tiling.ofSize 2 2).performAll Fork.ops = .ok Fork.layout.tiling := by decide +kernel
  have hroute : ∃ s ∈ Fork.layout.tiling.segments, s.role.isRoute = true := by decide +kernel
  have hroot : (build Fork.layout).root = some 5 := by decide +kernel
  obtain ⟨r, hshaped⟩ := slot_tree_shaped hreach hroute
  obtain rfl : r = 5 := Option.some.inj ((hshaped _ .start).1.root.symm.trans hroot)
  exact ⟨hreach, by decide +kernel, by decide +kernel, fun u hu => (hshaped u hu).1⟩

end SurfaceFabric.SlotTree
