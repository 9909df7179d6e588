import SurfaceFabric.SlotTree.Allocate
import SurfaceFabric.Proofs.SlotTree.Count

/-!
Handing out slots. While the root counts a slot of a kind, a request for the kind finds its way down to
a leaf that has one: a node with a free slot has stock of its own or a child with a free slot. The
request takes one slot from the leaf and one from every count on its way, so the counts stay right.
-/

namespace SurfaceFabric.SlotTree

variable {t u : SlotTree} {rank : Nat → Nat} {kind : SlotKind} {i leaf : Nat} {path : List Nat}

inductive Trail (t : SlotTree) : Nat → Nat → List Nat → Prop
  | done (i : Nat) : Trail t i i [i]
  | step {i c leaf : Nat} {path : List Nat} (child : c ∈ t.children i) (rest : Trail t c leaf path) :
      Trail t i leaf (i :: path)

/-- One slot of a kind leaves a leaf. -/
inductive Hands : SlotKind → Slot → SlotNodeKind → SlotNodeKind → Prop
  | cell (segment : Nat) (kind : SlotKind) (c : Cell) (left : List Cell) :
      Hands kind ⟨c, none⟩ (.cells segment kind (c :: left)) (.cells segment kind left)
  | factory (segment handle : Nat) (template : String) (entrance : Cell) :
      Hands (.factory template) ⟨entrance, some handle⟩
        (.factory segment handle template entrance false)
        (.factory segment handle template entrance true)

theorem heaviest?_eq_some {l : List Nat} {c : Nat} (h : t.heaviest? kind l = some c) :
    c ∈ l ∧ 0 < t.free c kind := by
  induction l generalizing c with
  | nil => cases h
  | cons d l ih =>
      rw [heaviest?] at h
      by_cases hd : 0 < t.free d kind
      · rw [decide_eq_true hd] at h
        cases hl : t.heaviest? kind l with
        | none =>
            rw [hl] at h
            cases h
            exact ⟨List.mem_cons_self, hd⟩
        | some e =>
            rw [hl] at h
            dsimp only at h
            obtain ⟨hmem, he⟩ := ih hl
            split at h
            · cases h
              exact ⟨List.mem_cons_of_mem _ hmem, he⟩
            · cases h
              exact ⟨List.mem_cons_self, hd⟩
      · rw [decide_eq_false hd] at h
        obtain ⟨hmem, hc⟩ := ih h
        exact ⟨List.mem_cons_of_mem _ hmem, hc⟩

theorem exists_heaviest? {l : List Nat} (h : ∃ c ∈ l, 0 < t.free c kind) :
    ∃ c, t.heaviest? kind l = some c := by
  induction l with
  | nil =>
      obtain ⟨c, hc, -⟩ := h
      cases hc
  | cons d l ih =>
      rw [heaviest?]
      by_cases hd : 0 < t.free d kind
      · rw [decide_eq_true hd]
        cases t.heaviest? kind l with
        | none => exact ⟨d, rfl⟩
        | some e => exact ⟨if t.weight d < t.weight e then e else d, by dsimp only; split <;> rfl⟩
      · rw [decide_eq_false hd]
        obtain ⟨c, hc, hfree⟩ := h
        rcases List.mem_cons.1 hc with rfl | hc
        · exact absurd hfree hd
        · exact ih ⟨c, hc, hfree⟩

theorem exists_hand {k : SlotNodeKind} (h : 0 < k.stock kind) :
    ∃ slot rest, hand? k = some (slot, rest) ∧ Hands kind slot k rest := by
  cases k with
  | cells segment k left =>
      rw [SlotNodeKind.stock] at h
      split at h
      · next hk =>
          subst hk
          cases left with
          | nil => simp at h
          | cons c left => exact ⟨_, _, rfl, .cell segment kind c left⟩
      · omega
  | factory segment handle template entrance taken =>
      rw [SlotNodeKind.stock] at h
      split at h
      · next hk =>
          obtain ⟨rfl, rfl⟩ := hk
          exact ⟨_, _, rfl, .factory segment handle template entrance⟩
      · omega
  | route segment => simp [SlotNodeKind.stock] at h
  | junction => simp [SlotNodeKind.stock] at h

structure Lacks (kind : SlotKind) (k rest : SlotNodeKind) : Prop where
  isLeaf : k.isLeaf = true ∧ rest.isLeaf = true
  stock_pos : 0 < k.stock kind
  stock_eq : ∀ kind', rest.stock kind' = k.stock kind' - if kind' = kind then 1 else 0

theorem Hands.lacks {slot : Slot} {k rest : SlotNodeKind} (h : Hands kind slot k rest) : Lacks kind k rest := by
  cases h with
  | cell segment kind c left =>
      refine ⟨⟨rfl, rfl⟩, by simp [SlotNodeKind.stock], fun kind' => ?_⟩
      by_cases hk : kind' = kind <;> simp [SlotNodeKind.stock, hk]
  | factory segment handle template entrance =>
      refine ⟨⟨rfl, rfl⟩, by simp [SlotNodeKind.stock], fun kind' => ?_⟩
      by_cases hk : kind' = .factory template <;> simp [SlotNodeKind.stock, hk]

namespace Trail

theorem rank_le (h : Forest t rank) (htrail : Trail t i leaf path) {x : Nat} (hx : x ∈ path) :
    rank x ≤ rank i := by
  induction htrail with
  | done i => exact Nat.le_of_eq (by rw [List.mem_singleton.1 hx])
  | step child rest ih =>
      rcases List.mem_cons.1 hx with rfl | hx
      · exact Nat.le_refl _
      · have := h.rank_lt _ _ child
        have := ih hx
        omega

theorem nodup (h : Forest t rank) (htrail : Trail t i leaf path) : path.Nodup := by
  induction htrail with
  | done i => exact List.nodup_singleton i
  | step child rest ih =>
      refine List.nodup_cons.2 ⟨fun hmem => ?_, ih⟩
      have := h.rank_lt _ _ child
      have := rest.rank_le h hmem
      omega

theorem reaches (htrail : Trail t i leaf path) : t.Below i leaf := by
  induction htrail with
  | done i => exact .refl
  | step child rest ih => exact .head child ih

theorem mem_first (htrail : Trail t i leaf path) : i ∈ path := by
  cases htrail <;> exact List.mem_cons_self

theorem snoc {j : Nat} (htrail : Trail t i leaf path) (hj : j ∈ t.children leaf) :
    Trail t i j (path ++ [j]) := by
  induction htrail with
  | done i => exact .step hj (.done j)
  | step child rest ih => exact .step child (ih hj)

theorem getLast? (htrail : Trail t i leaf path) : path.getLast? = some leaf := by
  induction htrail with
  | done i => rfl
  | step child rest ih => rw [List.getLast?_cons, ih, Option.getD_some]

theorem zip_tail (htrail : Trail t i leaf path) : ∀ s ∈ path.zip path.tail, s.2 ∈ t.children s.1 := by
  induction htrail with
  | done i => simp
  | step child rest ih =>
      cases rest with
      | done => simpa using child
      | step child' rest' =>
          intro s hs
          rcases List.mem_cons.1 hs with rfl | hs
          · exact child
          · exact ih s hs

theorem countP_mem_cons {l : List Nat} (hnew : i ∉ path) :
    l.countP (· ∈ i :: path) = l.count i + l.countP (· ∈ path) := by
  induction l with
  | nil => rfl
  | cons x l ih =>
      rw [List.countP_cons, List.countP_cons, List.count_cons, ih]
      by_cases hx : x = i
      · simp only [hx, List.mem_cons, true_or, hnew, decide_true, decide_false, beq_self_eq_true,
          if_true, Bool.false_eq_true, if_false]
        omega
      · simp only [hx, List.mem_cons, false_or, beq_iff_eq, if_false]
        omega

/-- A node on the way has one child on it, unless it is the last; the first has no parent there. -/
theorem countP_children (h : Forest t rank) (htrail : Trail t i leaf path) (a : Nat) :
    (t.children a).countP (· ∈ path) + (if a = leaf then 1 else 0) =
      (if a ∈ path then 1 else 0) + if i ∈ t.children a then 1 else 0 := by
  induction htrail with
  | done i =>
      have hcount : (t.children a).countP (· ∈ [i]) = if i ∈ t.children a then 1 else 0 := by
        rw [← (h.nodup a).count, List.count]
        refine List.countP_congr fun x _ => ?_
        simp
      rw [hcount]
      simp only [List.mem_singleton]
      omega
  | @step i c leaf path child rest ih =>
      have hnew : i ∉ path := by
        intro hmem
        have := h.rank_lt i c child
        have := rest.rank_le h hmem
        omega
      have hcount : (t.children a).countP (· ∈ i :: path) =
          (if i ∈ t.children a then 1 else 0) + (t.children a).countP (· ∈ path) := by
        rw [← (h.nodup a).count, countP_mem_cons hnew]
      have hparent : c ∈ t.children a ↔ a = i := by
        rw [h.parent_iff, (h.parent_iff i c).1 child, Option.some.injEq, eq_comm]
      rw [hcount]
      by_cases ha : a = i
      · subst ha
        simp only [hparent, if_true, hnew, if_false, List.mem_cons, true_or] at ih ⊢
        omega
      · simp only [hparent, ha, if_false, List.mem_cons, false_or] at ih ⊢
        omega

end Trail

theorem Stocked.free_pos (h : Stocked t rank) {r : Nat} (hr : t.root = some r) (hi : t.Below r i)
    (hfree : 0 < t.free i kind) :
    0 < t.stock i kind ∨ ∃ c ∈ t.children i, 0 < t.free c kind := by
  by_contra hnone
  rw [not_or, not_exists] at hnone
  have hzero : ((t.children i).map (t.free · kind)).sum = 0 := by
    refine List.sum_eq_zero fun n hn => ?_
    obtain ⟨c, hc, rfl⟩ := List.mem_map.1 hn
    have := hnone.2 c
    simp only [hc, true_and] at this
    omega
  have := h.free_eq r hr i hi kind
  omega

theorem Stocked.exists_descend (h : Stocked t rank) {r : Nat} (hr : t.root = some r) {n : Nat}
    (hi : t.Below r i) (hrank : rank i < n) (hfree : 0 < t.free i kind) :
    ∃ leaf path, t.descend kind n i = some path ∧ Trail t i leaf path ∧
      (∀ x ∈ path, 0 < t.free x kind) ∧ 0 < t.stock leaf kind := by
  induction n generalizing i with
  | zero => omega
  | succ n ih =>
      obtain ⟨node, hnode⟩ := exists_node? (h.forest.below_lt (h.top r hr).1 hi)
      have hkind : t.kinds[i]? = some node.kind := by rw [kinds_getElem?, hnode]; rfl
      have hqueue : t.queue i = node.queue := by simp [queue, hnode]
      by_cases hleaf : node.isLeaf = true
      · have hstock : 0 < t.stock i kind := by
          rcases h.free_pos hr hi hfree with hstock | ⟨c, hc, -⟩
          · exact hstock
          · rw [h.forest.childless i node.kind hkind hleaf] at hc
            cases hc
        refine ⟨i, [i], ?_, .done i, by simpa using hfree, hstock⟩
        simp [descend, hnode, hleaf]
      · have hchild : ∃ c ∈ node.queue, 0 < t.free c kind := by
          rcases h.free_pos hr hi hfree with hstock | ⟨c, hc, hpos⟩
          · have hinner : node.kind.isLeaf = false := by simpa [SlotNode.isLeaf] using hleaf
            simp [stock, hkind, SlotNodeKind.stock_of_inner hinner] at hstock
          · exact ⟨c, by rw [← hqueue]; exact (h.forest.queue_perm i).mem_iff.2 hc, hpos⟩
        obtain ⟨c, hc⟩ := exists_heaviest? hchild
        obtain ⟨hmem, hpos⟩ := heaviest?_eq_some hc
        have hkid : c ∈ t.children i := (h.forest.queue_perm i).mem_iff.1 (hqueue ▸ hmem)
        have hlower := h.forest.rank_lt i c hkid
        obtain ⟨leaf, path, hpath, htrail, hall, hstock⟩ := ih (hi.tail hkid) (by omega) hpos
        refine ⟨leaf, i :: path, ?_, .step hkid htrail, ?_, hstock⟩
        · simp [descend, hnode, hleaf, hc, hpath]
        · intro x hx
          rcases List.mem_cons.1 hx with rfl | hx
          · exact hfree
          · exact hall x hx

/-- Counts of a kind are lowered along a list of nodes. -/
theorem spend_foldl (t : SlotTree) (kind : SlotKind) (path : List Nat) :
    Reweighed t (path.foldl (fun t i => t.modify i (.spend kind)) t) ∧ ∀ x kind',
      (path.foldl (fun t i => t.modify i (.spend kind)) t).free x kind' =
        t.free x kind' - if kind' = kind then path.count x else 0 := by
  induction path generalizing t with
  | nil => exact ⟨.refl t, fun x kind' => by simp⟩
  | cons i path ih =>
      obtain ⟨hre, hfree⟩ := ih (t.modify i (.spend kind))
      have hstep : Reweighed t (t.modify i (.spend kind)) :=
        ⟨.modify fun n _ => ⟨rfl, rfl, .refl _, rfl, fun hn => hn.spend kind⟩, kinds_modify fun _ => rfl⟩
      refine ⟨hstep.trans hre, fun x kind' => ?_⟩
      rw [List.foldl_cons, hfree, free, tally, node?_modify, List.count_cons]
      by_cases hx : i = x
      · cases hn : t.node? x with
        | none => simp [hx, hn, free, tally]
        | some n =>
            by_cases hk : kind' = kind
            · simp [hx, hn, hk, free, tally, SlotNode.spend]
              omega
            · simp [hx, hn, hk, free, tally, SlotNode.spend]
      · simp [hx, free, tally]

theorem free_requeue (t : SlotTree) (s : Nat × Nat) (x : Nat) (kind' : SlotKind) :
    (requeue kind t s).free x kind' = t.free x kind' := by
  rw [free, tally, requeue, map_node?_modify (by simp)]
  rfl

theorem reweighed_requeue (h : Forest t rank) {s : Nat × Nat} (hs : s.2 ∈ t.children s.1) :
    Reweighed t (requeue kind t s) := by
  refine ⟨.modify fun n hn => ⟨rfl, rfl, ?_, rfl, id⟩, kinds_modify fun _ => rfl⟩
  have hmem : s.2 ∈ n.queue := by
    have hqueue : t.queue s.1 = n.queue := by simp [queue, hn]
    exact hqueue ▸ (h.queue_perm s.1).mem_iff.2 hs
  dsimp only
  split
  · exact (List.perm_cons_erase hmem).symm
  · exact List.perm_append_comm.trans (List.perm_cons_erase hmem).symm

theorem requeue_foldl (kind : SlotKind) (h : Forest t rank) {steps : List (Nat × Nat)}
    (hsteps : ∀ s ∈ steps, s.2 ∈ t.children s.1) : Reweighed t (steps.foldl (requeue kind) t) ∧
      ∀ x kind', (steps.foldl (requeue kind) t).free x kind' = t.free x kind' := by
  induction steps generalizing t with
  | nil => exact ⟨.refl t, fun x kind' => rfl⟩
  | cons s steps ih =>
      have hstep : Reweighed t (requeue kind t s) :=
        reweighed_requeue h (hsteps s List.mem_cons_self)
      obtain ⟨hre, hfree⟩ := ih (hstep.forest h) fun s' hs' => by
        rw [hstep.children]
        exact hsteps s' (List.mem_cons_of_mem _ hs')
      exact ⟨hstep.trans hre, fun x kind' => (hfree x kind').trans (free_requeue t s x kind')⟩

structure Drawn (t : SlotTree) (kind : SlotKind) (leaf : Nat) (path : List Nat) (rest : SlotNodeKind)
    (u : SlotTree) : Prop extends SameLinks t u where
  kinds : u.kinds = t.kinds.set leaf rest
  free_eq : ∀ x kind', u.free x kind' =
    t.free x kind' - if kind' = kind ∧ x ∈ path then 1 else 0

theorem Drawn.congr {path' : List Nat} {rest : SlotNodeKind} (h : Drawn t kind leaf path rest u)
    (hmem : ∀ x, x ∈ path ↔ x ∈ path') : Drawn t kind leaf path' rest u :=
  ⟨h.toSameLinks, h.kinds, fun x kind' => by rw [h.free_eq]; simp only [hmem]⟩

theorem stock_set {rest : SlotNodeKind} (hlt : leaf < t.nodes.length)
    (hu : u.kinds = t.kinds.set leaf rest) (x : Nat) (kind : SlotKind) :
    u.stock x kind = if x = leaf then rest.stock kind else t.stock x kind := by
  rw [stock, stock, hu, List.getElem?_set]
  by_cases hx : leaf = x
  · subst hx
    simp [length_kinds, hlt]
  · rw [if_neg hx, if_neg (Ne.symm hx)]

theorem sum_sub_countP {l : List Nat} {f : Nat → Nat} {p : Nat → Prop} [DecidablePred p]
    (h : ∀ x ∈ l, p x → 0 < f x) :
    (l.map fun x => f x - if p x then 1 else 0).sum + l.countP p = (l.map f).sum := by
  induction l with
  | nil => rfl
  | cons x l ih =>
      have hrest := ih fun y hy => h y (List.mem_cons_of_mem _ hy)
      rw [List.map_cons, List.sum_cons, List.countP_cons, List.map_cons, List.sum_cons]
      by_cases hx : p x
      · have hpos := h x List.mem_cons_self hx
        simp only [hx, if_true, decide_true]
        omega
      · simp only [hx, if_false, decide_false, Bool.false_eq_true]
        omega

/-- Taking a slot out of a leaf, and one off the count of every listed node. -/
theorem drawn_spend {node : SlotNode} {g : SlotNodeKind → SlotNodeKind} (hnode : t.node? leaf = some node)
    (hlacks : Lacks kind node.kind (g node.kind)) (hnodup : path.Nodup) :
    Drawn t kind leaf path (g node.kind) (path.foldl (fun t i => t.modify i (.spend kind))
      (t.modify leaf fun n => { n with kind := g n.kind })) := by
  let t₁ := t.modify leaf fun n => { n with kind := g n.kind }
  have hlinks : SameLinks t t₁ := by
    refine .modify fun n hn => ⟨rfl, rfl, .refl _, ?_, id⟩
    rw [hnode] at hn
    cases hn
    exact hlacks.isLeaf.2.trans hlacks.isLeaf.1.symm
  have hkinds : t₁.kinds = t.kinds.set leaf (g node.kind) := by
    refine List.ext_getElem? fun j => ?_
    rw [kinds_getElem?, node?_modify, List.getElem?_set]
    split
    · next hj =>
        subst hj
        simp [hnode, length_kinds, lt_length_of_node? hnode]
    · rw [kinds_getElem?]
  have hfree (x : Nat) (kind' : SlotKind) : t₁.free x kind' = t.free x kind' := by
    rw [free, tally, map_node?_modify (by simp)]
    rfl
  obtain ⟨hre, hspend⟩ := spend_foldl t₁ kind path
  refine ⟨hlinks.trans hre.toSameLinks, hre.kinds.trans hkinds, fun x kind' => ?_⟩
  rw [hspend, hfree, hnodup.count]
  by_cases hk : kind' = kind <;> simp [hk]

/-- The counts stay right when a slot goes out of a leaf and off the counts of all nodes above it. -/
theorem Stocked.drawn (h : Stocked t rank) {a : Nat} {k rest : SlotNodeKind} (htop : t.parent? a = none)
    (htrail : Trail t a leaf path)
    (hfree : ∀ r, t.root = some r → ∀ x ∈ path, t.Below r x → 0 < t.free x kind)
    (hk : t.kinds[leaf]? = some k) (hlacks : Lacks kind k rest) (hu : Drawn t kind leaf path rest u) :
    Stocked u rank := by
  have hlt : leaf < t.nodes.length := by
    rw [← length_kinds]
    exact (List.getElem?_eq_some_iff.1 hk).1
  refine ⟨hu.forest h.forest, ?_, ?_, ?_⟩
  · intro i hi
    rw [hu.length] at hi ⊢
    exact h.bounded i hi
  · intro r hr
    rw [hu.root] at hr
    rw [hu.length, hu.parent?]
    exact h.top r hr
  · intro r hr i hi kind'
    rw [hu.root] at hr
    rw [hu.below] at hi
    have hold := h.free_eq r hr i hi kind'
    have hstock := stock_set hlt hu.kinds i kind'
    rw [hu.children, hstock, hu.free_eq, hlacks.stock_eq]
    simp only [hu.free_eq]
    have hkstock : t.stock leaf kind' = k.stock kind' := by simp [stock, hk]
    by_cases hkind : kind' = kind
    · subst hkind
      simp only [true_and]
      have hsum := sum_sub_countP (l := t.children i) (f := (t.free · kind')) (p := (· ∈ path))
        fun x hx hpath => hfree r hr x hpath (hi.tail hx)
      have hcount := htrail.countP_children h.forest i
      have hfirst : a ∉ t.children i := by
        rw [h.forest.parent_iff, htop]
        simp
      rw [if_neg hfirst] at hcount
      have hpos := hlacks.stock_pos
      by_cases hleaf : i = leaf
      · subst hleaf
        simp only [if_true] at hcount ⊢
        omega
      · simp only [hleaf, if_false] at hcount ⊢
        by_cases hpath : i ∈ path <;> simp only [hpath, if_true, if_false] at hcount ⊢ <;> omega
    · simp only [hkind, false_and, if_false, Nat.sub_zero]
      split
      · next hleaf =>
          subst hleaf
          omega
      · exact hold

/-- A kind that the root still counts is handed out, by a way down on which every node counts it. -/
theorem Stocked.exists_drawn (h : Stocked t rank) (hcapacity : 0 < t.capacity kind) :
    ∃ r slot u leaf path k rest, t.root = some r ∧ t.alloc? kind = some (slot, u) ∧
      t.descend kind t.nodes.length r = some path ∧ Trail t r leaf path ∧ (∀ x ∈ path, 0 < t.free x kind) ∧
      t.kinds[leaf]? = some k ∧ Hands kind slot k rest ∧ Drawn t kind leaf path rest u := by
  cases hr : t.root with
  | none => simp [capacity, hr] at hcapacity
  | some r =>
      have hroot : 0 < t.free r kind := by simpa [capacity, hr] using hcapacity
      obtain ⟨leaf, path, hpath, htrail, hfree, hstock⟩ := h.exists_descend hr .refl
        (h.bounded r (h.top r hr).1) hroot
      have hlt : leaf < t.nodes.length := h.forest.below_lt (h.top r hr).1 htrail.reaches
      obtain ⟨node, hnode⟩ := exists_node? hlt
      have hkind : t.kinds[leaf]? = some node.kind := by rw [kinds_getElem?, hnode]; rfl
      have hleaf : 0 < node.kind.stock kind := by simpa [stock, hkind] using hstock
      obtain ⟨slot, rest, hhand, hands⟩ := exists_hand hleaf
      let t₁ := path.foldl (fun t i => t.modify i (.spend kind)) (t.modify leaf fun n => { n with kind := rest })
      let t₂ := (path.zip path.tail).foldl (requeue kind) t₁
      have hspent : Drawn t kind leaf path rest t₁ :=
        drawn_spend (g := fun _ => rest) hnode hands.lacks (htrail.nodup h.forest)
      have hsteps : ∀ s ∈ path.zip path.tail, s.2 ∈ t₁.children s.1 := by
        intro s hs
        rw [hspent.children]
        exact htrail.zip_tail s hs
      obtain ⟨hre, hfree'⟩ := requeue_foldl kind (hspent.forest h.forest) hsteps
      have hdrawn : Drawn t kind leaf path rest t₂ := by
        refine ⟨hspent.toSameLinks.trans hre.toSameLinks, hre.kinds.trans hspent.kinds, fun x kind' => ?_⟩
        rw [hfree', hspent.free_eq]
      refine ⟨r, slot, t₂, leaf, path, node.kind, rest, rfl, ?_, hpath, htrail, hfree, hkind, hands, hdrawn⟩
      simp [alloc?, Nat.pos_iff_ne_zero.1 hcapacity, hr, hpath, htrail.getLast?, hnode, hhand, t₁, t₂]

theorem Drawn.capacity_eq {r : Nat} {rest : SlotNodeKind} (hu : Drawn t kind leaf path rest u)
    (hr : t.root = some r) (hmem : r ∈ path) (kind' : SlotKind) :
    u.capacity kind' = t.capacity kind' - if kind' = kind then 1 else 0 := by
  rw [capacity, capacity, hu.root, hr, Option.map_some, Option.getD_some, Option.map_some, Option.getD_some,
    hu.free_eq]
  simp [hmem]

/-- A kind that the root still counts is handed out, and the counts stay right. -/
theorem Stocked.exists_alloc (h : Stocked t rank) (hcapacity : 0 < t.capacity kind) :
    ∃ slot u leaf k rest, t.alloc? kind = some (slot, u) ∧ Stocked u rank ∧
      t.kinds[leaf]? = some k ∧ Hands kind slot k rest ∧ u.kinds = t.kinds.set leaf rest ∧
      ∀ kind', u.capacity kind' = t.capacity kind' - if kind' = kind then 1 else 0 := by
  obtain ⟨r, slot, u, leaf, path, k, rest, hr, halloc, -, htrail, hfree, hkind, hands, hdrawn⟩ :=
    h.exists_drawn hcapacity
  have hstocked := h.drawn (h.top r hr).2 htrail (fun _ _ x hx _ => hfree x hx) hkind hands.lacks hdrawn
  exact ⟨slot, u, leaf, k, rest, halloc, hstocked, hkind, hands, hdrawn.kinds,
    hdrawn.capacity_eq hr htrail.mem_first⟩

/-- Trees that come about by requests. -/
abbrev Serves : SlotTree → SlotTree → Prop :=
  Relation.ReflTransGen fun t u => ∃ kind slot, t.alloc? kind = some (slot, u)

theorem capacity_pos_of_alloc? {slot : Slot} (halloc : t.alloc? kind = some (slot, u)) : 0 < t.capacity kind := by
  refine Nat.pos_of_ne_zero fun hzero => ?_
  simp [alloc?, hzero] at halloc

theorem Stocked.serves (h : Stocked t rank) (hserves : Serves t u) : Stocked u rank := by
  induction hserves with
  | refl => exact h
  | tail _ hstep ih =>
      obtain ⟨kind, slot, halloc⟩ := hstep
      obtain ⟨slot', u', leaf, k, rest, halloc', hstocked, -⟩ := ih.exists_alloc (capacity_pos_of_alloc? halloc)
      rw [halloc] at halloc'
      cases halloc'
      exact hstocked

/-- A request takes one off each count on its way down, of which none is zero, and leaves the others alone. -/
theorem Stocked.spends (h : Stocked t rank) {slot : Slot} (halloc : t.alloc? kind = some (slot, u)) :
    ∃ r path, t.root = some r ∧ t.descend kind t.nodes.length r = some path ∧ path.Nodup ∧
      ∀ x kind', t.free x kind' = u.free x kind' + if x ∈ path ∧ kind' = kind then 1 else 0 := by
  obtain ⟨r, slot', u', leaf, path, k, rest, hr, halloc', hpath, htrail, hfree, -, -, hdrawn⟩ :=
    h.exists_drawn (capacity_pos_of_alloc? halloc)
  rw [halloc] at halloc'
  cases halloc'
  refine ⟨r, path, hr, hpath, htrail.nodup h.forest, fun x kind' => ?_⟩
  rw [hdrawn.free_eq]
  by_cases hx : x ∈ path ∧ kind' = kind
  · obtain ⟨hx, rfl⟩ := hx
    have hpos := hfree x hx
    simp only [hx, and_self, if_true]
    omega
  · rw [if_neg hx, if_neg fun hx' => hx hx'.symm, Nat.sub_zero, Nat.add_zero]

/-- A tree in which no link leads astray and no count is overdrawn. -/
structure Serviceable (t : SlotTree) : Prop where
  root_lt : ∀ r, t.root = some r → r < t.nodes.length
  children_lt : ∀ i, ∀ j ∈ t.children i, j < t.nodes.length
  spends : ∀ kind slot u, t.alloc? kind = some (slot, u) → ∃ r path, t.root = some r ∧
    t.descend kind t.nodes.length r = some path ∧ path.Nodup ∧
      ∀ x kind', t.free x kind' = u.free x kind' + if x ∈ path ∧ kind' = kind then 1 else 0

theorem Stocked.serviceable (h : Stocked t rank) : t.Serviceable :=
  ⟨fun r hr => (h.top r hr).1, fun _ _ hj => (h.forest.lt_length hj).2, fun _ _ _ => h.spends⟩

end SurfaceFabric.SlotTree
