import Mathlib.Algebra.BigOperators.Group.Finset.Basic
import Mathlib.Algebra.BigOperators.Group.List.Basic
import Mathlib.Algebra.GroupWithZero.Nat
import SurfaceFabric.SlotTree.Build
import SurfaceFabric.Proofs.SlotTree.Hang

/-!
Free counts of a slot tree. What lies below a node is its own stock and what lies below its children;
accumulating leaves this number at every node below the root. So every count below the root is the number of
slots that the nodes from there down still hold, and the root of a tree with no other top counts the stock of
all nodes.
-/

namespace SurfaceFabric

namespace SlotNodeKind

def stock (kind : SlotKind) : SlotNodeKind → Nat
  | .cells _ k left => if kind = k then left.length else 0
  | .factory _ _ template _ taken => if kind = .factory template ∧ taken = false then 1 else 0
  | .route _ | .junction => 0

def IsFresh : SlotNodeKind → Prop
  | .factory _ _ _ _ taken => taken = false
  | _ => True

theorem count_offers {k : SlotNodeKind} (h : k.IsFresh) (kind : SlotKind) :
    k.offers.count kind = k.stock kind := by
  cases k with
  | cells segment k left => simp [offers, stock]
  | factory segment handle template entrance taken =>
      have hfresh : taken = false := h
      simp [offers, stock, hfresh]
  | route segment => rfl
  | junction => rfl

theorem keyed_offers (k : SlotNodeKind) : k.offers.Keyed := by
  cases k with
  | cells segment k left => exact Tally.keyed_empty.add _ _
  | factory segment handle template entrance taken => exact Tally.keyed_empty.add _ _
  | route segment => exact Tally.keyed_empty
  | junction => exact Tally.keyed_empty

theorem stock_of_inner {k : SlotNodeKind} (h : k.isLeaf = false) (kind : SlotKind) :
    k.stock kind = 0 := by
  cases k with
  | cells segment k left => cases h
  | factory segment handle template entrance taken => cases h
  | route segment => rfl
  | junction => rfl

end SlotNodeKind

/-- Nodes that differ in weight, counts and stock, and in the order of their requests. -/
structure SlotNode.Alike (n m : SlotNode) : Prop where
  parent : m.parent = n.parent
  children : m.children = n.children
  queue : m.queue.Perm n.queue
  leaf : m.kind.isLeaf = n.kind.isLeaf
  keyed : n.free.Keyed → m.free.Keyed

namespace SlotTree

variable {t u v : SlotTree} {rank : Nat → Nat} {i j : Nat} {kind : SlotKind}

structure SameLinks (t u : SlotTree) : Prop where
  length : u.nodes.length = t.nodes.length
  root : u.root = t.root
  alike : ∀ i n m, t.node? i = some n → u.node? i = some m → n.Alike m

namespace SameLinks

theorem refl (t : SlotTree) : SameLinks t t where
  length := rfl
  root := rfl
  alike i n m hn hm := by
    rw [hn] at hm
    cases hm
    exact ⟨rfl, rfl, .refl _, rfl, id⟩

theorem trans (h : SameLinks t u) (h' : SameLinks u v) : SameLinks t v where
  length := h'.length.trans h.length
  root := h'.root.trans h.root
  alike i n m hn hm := by
    obtain ⟨k, hk⟩ := exists_node? (t := u) (i := i) (h.length ▸ lt_length_of_node? hn)
    have h₁ := h.alike i n k hn hk
    have h₂ := h'.alike i k m hk hm
    exact ⟨h₂.parent.trans h₁.parent, h₂.children.trans h₁.children, h₂.queue.trans h₁.queue,
      h₂.leaf.trans h₁.leaf, h₂.keyed ∘ h₁.keyed⟩

theorem modify {g : SlotNode → SlotNode} (h : ∀ n, t.node? i = some n → n.Alike (g n)) :
    SameLinks t (t.modify i g) where
  length := modify_length ..
  root := rfl
  alike j n m hn hm := by
    rw [node?_modify] at hm
    split at hm
    · next hij =>
        rw [hn] at hm
        cases hm
        exact h n (hij ▸ hn)
    · exact (refl t).alike j n m hn hm

theorem node? (h : SameLinks t u) (i : Nat) : (t.node? i = none ∧ u.node? i = none) ∨
    ∃ n m, t.node? i = some n ∧ u.node? i = some m ∧ n.Alike m := by
  cases hn : t.node? i with
  | none => exact .inl ⟨rfl, List.getElem?_eq_none (h.length ▸ List.getElem?_eq_none_iff.1 hn)⟩
  | some n =>
      obtain ⟨m, hm⟩ := exists_node? (t := u) (i := i) (h.length ▸ lt_length_of_node? hn)
      exact .inr ⟨n, m, rfl, hm, h.alike i n m hn hm⟩

theorem parent? (h : SameLinks t u) (i : Nat) : u.parent? i = t.parent? i := by
  rcases h.node? i with ⟨hn, hm⟩ | ⟨n, m, hn, hm, hlike⟩
  · simp [SlotTree.parent?, hn, hm]
  · simp [SlotTree.parent?, hn, hm, hlike.parent]

theorem children (h : SameLinks t u) (i : Nat) : u.children i = t.children i := by
  rcases h.node? i with ⟨hn, hm⟩ | ⟨n, m, hn, hm, hlike⟩
  · simp [SlotTree.children, hn, hm]
  · simp [SlotTree.children, hn, hm, hlike.children]

theorem below (h : SameLinks t u) : u.Below = t.Below := by
  unfold Below
  simp only [h.children]

theorem forest (h : SameLinks t u) (ht : Forest t rank) : Forest u rank where
  parent_iff i j := by
    rw [h.children, h.parent?]
    exact ht.parent_iff i j
  nodup i := by
    rw [h.children]
    exact ht.nodup i
  queue_perm i := by
    refine List.Perm.trans ?_ (h.children i ▸ ht.queue_perm i)
    rcases h.node? i with ⟨hn, hm⟩ | ⟨n, m, hn, hm, hlike⟩
    · simp [queue, hn, hm]
    · simpa [queue, hn, hm] using hlike.queue
  rank_lt i j hj := ht.rank_lt i j (h.children i ▸ hj)
  childless i k hk hleaf := by
    rw [h.children]
    rw [kinds_getElem?] at hk
    rcases h.node? i with ⟨hn, hm⟩ | ⟨n, m, hn, hm, hlike⟩
    · simp [hm] at hk
    · rw [hm, Option.map_some, Option.some.injEq] at hk
      refine ht.childless i n.kind (by rw [kinds_getElem?, hn]; rfl) ?_
      rw [← hlike.leaf, hk, hleaf]
  keyed i := by
    have hold := ht.keyed i
    rcases h.node? i with ⟨hn, hm⟩ | ⟨n, m, hn, hm, hlike⟩
    · simp [tally, hm, Tally.keyed_empty]
    · simp only [tally, hn, hm, Option.map_some, Option.getD_some] at hold ⊢
      exact hlike.keyed hold

end SameLinks

def stock (t : SlotTree) (i : Nat) (kind : SlotKind) : Nat :=
  (t.kinds[i]?.map (SlotNodeKind.stock kind)).getD 0

/-- Slots of a kind in the first `n` levels from a node down. -/
def held (t : SlotTree) (kind : SlotKind) (n i : Nat) : Nat :=
  ((t.levels n [i]).map (t.stock · kind)).sum

theorem levels_succ (t : SlotTree) (n : Nat) (ids : List Nat) :
    t.levels (n + 1) ids = ids ++ t.levels n (ids.flatMap t.children) := by
  cases ids with
  | nil => cases n <;> simp [levels]
  | cons i ids => rfl

theorem sum_levels (t : SlotTree) (kind : SlotKind) (n : Nat) (ids : List Nat) :
    ((t.levels n ids).map (t.stock · kind)).sum = (ids.map (t.held kind n)).sum := by
  induction n generalizing ids with
  | zero =>
      have hnone : t.held kind 0 = fun _ => 0 := rfl
      simp [levels, hnone]
  | succ n ih =>
      have hheld (i : Nat) :
          t.held kind (n + 1) i = t.stock i kind + ((t.children i).map (t.held kind n)).sum := by
        rw [held, levels_succ, List.map_append, List.sum_append, ih]
        simp
      rw [levels_succ, List.map_append, List.sum_append, ih]
      induction ids with
      | nil => simp
      | cons i ids ih' =>
          simp only [List.map_cons, List.sum_cons, List.flatMap_cons, List.map_append,
            List.sum_append, hheld] at ih' ⊢
          omega

theorem held_succ (t : SlotTree) (kind : SlotKind) (n i : Nat) :
    t.held kind (n + 1) i = t.stock i kind + ((t.children i).map (t.held kind n)).sum := by
  rw [held, levels_succ, List.map_append, List.sum_append, sum_levels]
  simp

/-- From some depth on nothing is left to count. -/
theorem Forest.held_eq (h : Forest t rank) (kind : SlotKind) {n m i : Nat} (hn : rank i < n)
    (hm : rank i < m) : t.held kind n i = t.held kind m i := by
  induction n generalizing m i with
  | zero => omega
  | succ n ih =>
      obtain ⟨m, rfl⟩ : ∃ k, m = k + 1 := ⟨m - 1, by omega⟩
      rw [held_succ, held_succ]
      congr 2
      refine List.map_congr_left fun c hc => ?_
      have := h.rank_lt i c hc
      exact ih (by omega) (by omega)

/-- The rank of a node stays below the number of nodes. -/
def Bounded (t : SlotTree) (rank : Nat → Nat) : Prop := ∀ i < t.nodes.length, rank i < t.nodes.length

def total (t : SlotTree) (i : Nat) (kind : SlotKind) : Nat := t.held kind t.nodes.length i

theorem Forest.total_eq (h : Forest t rank) (hb : t.Bounded rank) (hi : i < t.nodes.length)
    (kind : SlotKind) :
    t.total i kind = t.stock i kind + ((t.children i).map (t.total · kind)).sum := by
  have hrank := hb i hi
  obtain ⟨n, hn⟩ : ∃ n, t.nodes.length = n + 1 := ⟨t.nodes.length - 1, by omega⟩
  have hstep : t.total i kind = t.stock i kind + ((t.children i).map (t.held kind n)).sum := by
    rw [total, hn, held_succ]
  rw [hstep]
  congr 2
  refine List.map_congr_left fun c hc => ?_
  have hlower := h.rank_lt i c hc
  exact h.held_eq kind (by omega) (by omega)

theorem length_kinds (t : SlotTree) : t.kinds.length = t.nodes.length := by
  simp [kinds]

theorem sum_stock (t : SlotTree) (kind : SlotKind) :
    ((List.range t.nodes.length).map (t.stock · kind)).sum =
      (t.kinds.map (SlotNodeKind.stock kind)).sum := by
  congr 1
  refine List.ext_getElem (by simp [length_kinds]) fun i hi hi' => ?_
  have hlt : i < t.kinds.length := by simpa using hi'
  simp [stock, List.getElem?_eq_getElem hlt]

theorem Forest.flatMap_children (h : Forest t rank) :
    ((List.range t.nodes.length).flatMap t.children).Perm
      ((List.range t.nodes.length).filter fun i => (t.parent? i).isSome) := by
  refine (List.perm_ext_iff_of_nodup ?_ (List.nodup_range.filter _)).2 ?_
  · refine List.nodup_flatMap.2 ⟨fun i _ => h.nodup i, List.nodup_range.imp ?_⟩
    intro i i' hne c hc hc'
    rw [h.parent_iff] at hc hc'
    rw [hc] at hc'
    cases hc'
    exact hne rfl
  · intro c
    rw [List.mem_flatMap, List.mem_filter, Option.isSome_iff_exists]
    constructor
    · rintro ⟨i, -, hc⟩
      exact ⟨List.mem_range.2 (h.lt_length hc).2, i, (h.parent_iff i c).1 hc⟩
    · rintro ⟨-, i, hi⟩
      have hc := (h.parent_iff i c).2 hi
      exact ⟨i, List.mem_range.2 (h.lt_length hc).1, hc⟩

/-- Every node counts once for itself and, unless it is a top, once for its parent. -/
theorem Forest.sum_tops (h : Forest t rank) (hb : t.Bounded rank) (kind : SlotKind) :
    (((List.range t.nodes.length).filter fun i => (t.parent? i).isNone).map (t.total · kind)).sum =
      (t.kinds.map (SlotNodeKind.stock kind)).sum := by
  have hsplit := (List.filter_append_perm (fun i => (t.parent? i).isSome)
    (List.range t.nodes.length)).map (t.total · kind)
  have htops : ((List.range t.nodes.length).filter fun i => !(t.parent? i).isSome) =
      (List.range t.nodes.length).filter fun i => (t.parent? i).isNone := by
    simp
  have hall : ((List.range t.nodes.length).map (t.total · kind)).sum =
      ((List.range t.nodes.length).map fun i =>
        t.stock i kind + ((t.children i).map (t.total · kind)).sum).sum := by
    congr 1
    exact List.map_congr_left fun i hi => h.total_eq hb (List.mem_range.1 hi) kind
  have hchildren := (h.flatMap_children.map (t.total · kind)).sum_eq
  have hsum := hsplit.sum_eq
  rw [htops, List.map_append, List.sum_append, hall, List.sum_map_add, sum_stock] at hsum
  rw [List.flatMap, List.map_flatten, List.sum_flatten, List.map_map, List.map_map] at hchildren
  simp only [Function.comp_def] at hchildren
  omega

theorem Rooted.total_eq {r : Nat} (hr : t.Rooted r) (h : Forest t rank) (hb : t.Bounded rank)
    (kind : SlotKind) : t.total r kind = (t.kinds.map (SlotNodeKind.stock kind)).sum := by
  rw [← h.sum_tops hb kind]
  have hmem : r ∈ (List.range t.nodes.length).filter fun i => (t.parent? i).isNone := by
    simp [hr.lt_length, hr.top]
  have hnodup : ((List.range t.nodes.length).filter fun i => (t.parent? i).isNone).Nodup :=
    List.nodup_range.filter _
  have hspare : ∀ i ∈ ((List.range t.nodes.length).filter fun i => (t.parent? i).isNone).erase r,
      t.total i kind = 0 := by
    intro i hi
    rw [hnodup.mem_erase_iff, List.mem_filter, List.mem_range, Option.isNone_iff_eq_none] at hi
    obtain ⟨hne, hlt, htop⟩ := hi
    rcases hr.spare i hlt htop with heq | ⟨hk, hkids⟩
    · exact absurd heq hne
    · rw [h.total_eq hb hlt, hkids, stock, hk]
      rfl
  rw [((List.perm_cons_erase hmem).map (t.total · kind)).sum_eq, List.map_cons, List.sum_cons,
    List.sum_eq_zero (by simpa using hspare)]
  rfl

structure Reweighed (t u : SlotTree) : Prop extends SameLinks t u where
  kinds : u.kinds = t.kinds

theorem Reweighed.refl (t : SlotTree) : Reweighed t t := ⟨.refl t, rfl⟩

theorem Reweighed.trans (h : Reweighed t u) (h' : Reweighed u v) : Reweighed t v :=
  ⟨h.toSameLinks.trans h'.toSameLinks, h'.kinds.trans h.kinds⟩

theorem keyed_foldl_union {l : List Tally} {s : Tally} (h : s.Keyed) : (l.foldl Tally.union s).Keyed := by
  induction l generalizing s with
  | nil => exact h
  | cons u l ih => exact ih (h.union u)

theorem count_foldl_union {l : List Tally} (h : ∀ u ∈ l, u.Keyed) (s : Tally) (kind : SlotKind) :
    (l.foldl Tally.union s).count kind = s.count kind + (l.map (Tally.count · kind)).sum := by
  induction l generalizing s with
  | nil => simp
  | cons u l ih =>
      rw [List.foldl_cons, ih (fun v hv => h v (List.mem_cons_of_mem _ hv)),
        Tally.count_union _ (h u List.mem_cons_self), List.map_cons, List.sum_cons]
      omega

theorem reweighed_settle (t : SlotTree) (i : Nat) : Reweighed t (t.settle i) := by
  unfold settle
  split
  · exact .refl t
  · split
    · refine ⟨.modify fun n _ => ⟨rfl, rfl, .refl _, rfl, fun _ => n.kind.keyed_offers⟩, ?_⟩
      exact kinds_modify fun _ => rfl
    · refine ⟨.modify fun n _ => ⟨rfl, rfl, .refl _, rfl, fun _ => ?_⟩, kinds_modify fun _ => rfl⟩
      exact keyed_foldl_union Tally.keyed_empty

theorem free_settle (h : Forest t rank) (hfresh : ∀ k ∈ t.kinds, k.IsFresh)
    (hi : i < t.nodes.length) (j : Nat) (kind : SlotKind) : (t.settle i).free j kind =
      if j = i then t.stock i kind + ((t.children i).map (t.free · kind)).sum else t.free j kind := by
  obtain ⟨n, hn⟩ := exists_node? hi
  have hkind : t.kinds[i]? = some n.kind := by rw [kinds_getElem?, hn]; rfl
  have hkids : t.children i = n.children := by simp [children, hn]
  have hstock : t.stock i kind = n.kind.stock kind := by simp [stock, hkind]
  have hother (g : SlotNode → SlotNode) (hne : j ≠ i) : (t.modify i g).free j kind = t.free j kind := by
    rw [free, tally, node?_modify, if_neg (Ne.symm hne)]
    rfl
  have hself (g : SlotNode → SlotNode) : (t.modify i g).free i kind = (g n).free.count kind := by
    rw [free, tally, node?_modify, if_pos rfl, hn]
    rfl
  unfold settle
  rw [hn]
  dsimp only
  by_cases hj : j = i
  · subst hj
    rw [if_pos rfl, hstock]
    by_cases hleaf : n.isLeaf = true
    · rw [if_pos hleaf, hself, h.childless j n.kind hkind hleaf]
      exact SlotNodeKind.count_offers (hfresh _ (List.mem_of_getElem? hkind)) kind
    · have hinner : n.kind.isLeaf = false := by simpa [SlotNode.isLeaf] using hleaf
      rw [if_neg hleaf, hself, SlotNodeKind.stock_of_inner hinner, hkids]
      dsimp only
      rw [count_foldl_union (by simpa using fun c _ => h.keyed c), List.map_map]
      simp [Function.comp_def, free]
  · rw [if_neg hj]
    split <;> exact hother _ hj

/-- The nodes whose counts say what lies below them. -/
def Settled (t u : SlotTree) (i : Nat) : Prop := ∀ kind, u.free i kind = t.total i kind

theorem Forest.settled_settle (h : Forest t rank) (hb : t.Bounded rank)
    (hfresh : ∀ k ∈ t.kinds, k.IsFresh) (hu : Reweighed t u) (hi : i < t.nodes.length)
    (hkids : ∀ c ∈ t.children i, Settled t u c) (hj : Settled t u j ∨ j = i) :
    Settled t (u.settle i) j := by
  intro kind
  rw [free_settle (hu.forest h) (hu.kinds ▸ hfresh) (hu.length ▸ hi)]
  split
  · next heq =>
      rw [heq, h.total_eq hb hi, hu.children, stock, stock, hu.kinds]
      congr 2
      exact List.map_congr_left fun c hc => hkids c hc kind
  · next hne => exact (hj.resolve_right hne) kind

/-- Nodes settled after their children end up settled, and no node gets lost. -/
theorem Forest.settled_foldl (h : Forest t rank) (hb : t.Bounded rank)
    (hfresh : ∀ k ∈ t.kinds, k.IsFresh) {l : List Nat} (hu : Reweighed t u)
    (hl : ∀ i ∈ l, i < t.nodes.length ∧ ∀ c ∈ t.children i, Settled t u c) :
    Reweighed t (l.foldl settle u) ∧
      ∀ j, (j ∈ l ∨ Settled t u j) → Settled t (l.foldl settle u) j := by
  induction l generalizing u with
  | nil => exact ⟨hu, fun j hj => by simpa using hj⟩
  | cons i l ih =>
      obtain ⟨hi, hkids⟩ := hl i List.mem_cons_self
      have hkeep (j : Nat) (hj : Settled t u j ∨ j = i) : Settled t (u.settle i) j :=
        h.settled_settle hb hfresh hu hi hkids hj
      obtain ⟨hre, hdone⟩ := ih (hu.trans (reweighed_settle u i)) fun k hk =>
        ⟨(hl k (List.mem_cons_of_mem _ hk)).1, fun c hc =>
          hkeep c (.inl ((hl k (List.mem_cons_of_mem _ hk)).2 c hc))⟩
      refine ⟨hre, fun j hj => hdone j ?_⟩
      rcases hj with hj | hj
      · rcases List.mem_cons.1 hj with rfl | hj
        · exact .inr (hkeep j (.inr rfl))
        · exact .inl hj
      · exact .inr (hkeep j (.inl hj))

theorem Forest.settled_levels (h : Forest t rank) (hb : t.Bounded rank)
    (hfresh : ∀ k ∈ t.kinds, k.IsFresh) (n : Nat) (ids : List Nat)
    (hids : ∀ i ∈ ids, i < t.nodes.length ∧ rank i < n) :
    Reweighed t ((t.levels n ids).reverse.foldl settle t) ∧
      ∀ j ∈ t.levels n ids, Settled t ((t.levels n ids).reverse.foldl settle t) j := by
  induction n generalizing ids with
  | zero =>
      refine ⟨.refl t, fun j hj => ?_⟩
      simp [levels] at hj
  | succ n ih =>
      have hnext : ∀ c ∈ ids.flatMap t.children, c < t.nodes.length ∧ rank c < n := by
        intro c hc
        obtain ⟨i, hi, hc⟩ := List.mem_flatMap.1 hc
        have hlower := h.rank_lt i c hc
        have hrank := (hids i hi).2
        exact ⟨(h.lt_length hc).2, by omega⟩
      obtain ⟨hre, hdone⟩ := ih _ hnext
      rw [levels_succ, List.reverse_append, List.foldl_append]
      -- children of the upper level are the first of the lower levels
      have hready : ∀ i ∈ ids.reverse, i < t.nodes.length ∧ ∀ c ∈ t.children i,
          Settled t ((t.levels n (ids.flatMap t.children)).reverse.foldl settle t) c := by
        intro i hi
        rw [List.mem_reverse] at hi
        refine ⟨(hids i hi).1, fun c hc => hdone c ?_⟩
        have hmem : c ∈ ids.flatMap t.children := List.mem_flatMap.2 ⟨i, hi, hc⟩
        have hrank := (hnext c hmem).2
        obtain ⟨m, rfl⟩ : ∃ m, n = m + 1 := ⟨n - 1, by omega⟩
        rw [levels_succ]
        exact List.mem_append_left _ hmem
      obtain ⟨hre', hdone'⟩ := h.settled_foldl hb hfresh hre hready
      refine ⟨hre', fun j hj => hdone' j ?_⟩
      rcases List.mem_append.1 hj with hj | hj
      · exact .inl (List.mem_reverse.2 hj)
      · exact .inr (hdone j hj)

theorem Forest.mem_levels (h : Forest t rank) {n : Nat} {ids : List Nat} (hi : i ∈ ids)
    (hrank : rank i < n) (hij : t.Below i j) : j ∈ t.levels n ids := by
  induction n generalizing i ids with
  | zero => omega
  | succ n ih =>
      rw [levels_succ]
      rcases Relation.ReflTransGen.cases_head hij with rfl | ⟨c, hc, hcj⟩
      · exact List.mem_append_left _ hi
      · have hlower := h.rank_lt i c hc
        exact List.mem_append_right _ (ih (List.mem_flatMap.2 ⟨i, hi, hc⟩) (by omega) hcj)

structure Stocked (t : SlotTree) (rank : Nat → Nat) : Prop where
  forest : Forest t rank
  bounded : t.Bounded rank
  top : ∀ r, t.root = some r → r < t.nodes.length ∧ t.parent? r = none
  free_eq : ∀ r, t.root = some r → ∀ i, t.Below r i → ∀ kind,
    t.free i kind = t.stock i kind + ((t.children i).map (t.free · kind)).sum

theorem Forest.below_lt (h : Forest t rank) (hi : i < t.nodes.length) (hij : t.Below i j) :
    j < t.nodes.length := by
  rcases Relation.ReflTransGen.cases_tail hij with rfl | ⟨p, -, hj⟩
  · exact hi
  · exact (h.lt_length hj).2

theorem stocked_empty (rank : Nat → Nat) : Stocked empty rank where
  forest := .empty
  bounded i hi := absurd hi (Nat.not_lt_zero i)
  top r hr := by cases hr
  free_eq r hr := by cases hr

/-- Accumulating settles what lies below the root, whatever else there is. -/
theorem Forest.accumulate (h : Forest t rank) (hb : t.Bounded rank) (hfresh : ∀ k ∈ t.kinds, k.IsFresh)
    (htop : ∀ r, t.root = some r → r < t.nodes.length ∧ t.parent? r = none) :
    Stocked t.accumulate rank ∧ Reweighed t t.accumulate ∧
      ∀ r, t.root = some r → ∀ i, t.Below r i → Settled t t.accumulate i := by
  have hspec : Reweighed t t.accumulate ∧
      ∀ r, t.root = some r → ∀ i, t.Below r i → Settled t t.accumulate i := by
    unfold SlotTree.accumulate
    cases hroot : t.root with
    | none => exact ⟨.refl t, fun r hr => by cases hr⟩
    | some r =>
        obtain ⟨hlt, -⟩ := htop r hroot
        obtain ⟨hre, hdone⟩ := h.settled_levels hb hfresh t.nodes.length [r] (by
          intro i hi
          rw [List.mem_singleton.1 hi]
          exact ⟨hlt, hb r hlt⟩)
        refine ⟨hre, fun r' hr' i hi => ?_⟩
        cases hr'
        exact hdone i (h.mem_levels (List.mem_singleton_self r) (hb r hlt) hi)
  obtain ⟨hre, hsettled⟩ := hspec
  refine ⟨⟨hre.forest h, ?_, ?_, ?_⟩, hre, hsettled⟩
  · intro i hi
    rw [hre.length] at hi ⊢
    exact hb i hi
  · intro r hr
    rw [hre.root] at hr
    rw [hre.length, hre.parent?]
    exact htop r hr
  · intro r hr i hi kind
    rw [hre.root] at hr
    rw [hre.below] at hi
    rw [hsettled r hr i hi kind, h.total_eq hb (h.below_lt (htop r hr).1 hi), hre.children, stock, stock,
      hre.kinds]
    congr 2
    exact List.map_congr_left fun c hc => (hsettled r hr c (hi.tail hc) kind).symm

theorem Rooted.accumulate {r : Nat} (hr : t.Rooted r) (h : Forest t rank) (hb : t.Bounded rank)
    (hfresh : ∀ k ∈ t.kinds, k.IsFresh) : Stocked t.accumulate rank ∧
      t.accumulate.kinds = t.kinds ∧
      ∀ kind, t.accumulate.capacity kind = (t.kinds.map (SlotNodeKind.stock kind)).sum := by
  obtain ⟨hstocked, hre, hsettled⟩ := h.accumulate hb hfresh fun r' hr' => by
    rw [hr.root_eq] at hr'
    cases hr'
    exact ⟨hr.lt_length, hr.top⟩
  refine ⟨hstocked, hre.kinds, fun kind => ?_⟩
  rw [capacity, hre.root, hr.root_eq, Option.map_some, Option.getD_some, hsettled r hr.root_eq r .refl kind,
    hr.total_eq h hb]

open scoped Classical in
/-- Slots of a kind that the nodes from `i` down still hold. -/
noncomputable def holdings (t : SlotTree) (i : Nat) (kind : SlotKind) : Nat :=
  ∑ j ∈ Finset.range t.nodes.length with t.Below i j, t.stock j kind

theorem Forest.rank_le_of_below (h : Forest t rank) (hij : t.Below i j) : rank j ≤ rank i := by
  induction hij with
  | refl => exact Nat.le_refl _
  | tail _ hstep ih => exact (h.rank_lt _ _ hstep).le.trans ih

/-- What lies below two children of a node is apart. -/
theorem Forest.eq_of_below (h : Forest t rank) {p c c' : Nat} (hc : c ∈ t.children p) (hc' : c' ∈ t.children p)
    (hj : t.Below c j) (hj' : t.Below c' j) : c = c' := by
  have hparent := (h.parent_iff p c).1 hc
  have hparent' := (h.parent_iff p c').1 hc'
  -- one of the two would lie above the other, and then above the parent of both
  have hnot {a b : Nat} (ha : t.parent? a = some p) (hb : b ∈ t.children p) (hab : t.Climbs a b) : a = b := by
    rcases Relation.ReflTransGen.cases_head hab with heq | ⟨q, hq, hrest⟩
    · exact heq
    · rw [ha, Option.some.injEq] at hq
      have hle := h.rank_le_of_below (h.climbs_iff.1 (hq ▸ hrest : t.Climbs p b))
      have hlt := h.rank_lt p b hb
      omega
  rcases (h.climbs_iff.2 hj).total (h.climbs_iff.2 hj') with hcc | hcc
  · exact hnot hparent hc' hcc
  · exact (hnot hparent' hc hcc).symm

theorem Forest.holdings_eq (h : Forest t rank) (hi : i < t.nodes.length) (kind : SlotKind) :
    t.holdings i kind = t.stock i kind + ((t.children i).map (t.holdings · kind)).sum := by
  classical
  have hsplit : (Finset.range t.nodes.length).filter (t.Below i ·) =
      insert i ((t.children i).toFinset.biUnion fun c => (Finset.range t.nodes.length).filter (t.Below c ·)) := by
    ext j
    simp only [Finset.mem_filter, Finset.mem_range, Finset.mem_insert, Finset.mem_biUnion, List.mem_toFinset]
    rw [Below, Relation.ReflTransGen.cases_head_iff]
    constructor
    · rintro ⟨hj, rfl | ⟨c, hc, hrest⟩⟩
      · exact .inl rfl
      · exact .inr ⟨c, hc, hj, hrest⟩
    · rintro (rfl | ⟨c, hc, hj, hrest⟩)
      · exact ⟨hi, .inl rfl⟩
      · exact ⟨hj, .inr ⟨c, hc, hrest⟩⟩
  have hself : i ∉ (t.children i).toFinset.biUnion
      fun c => (Finset.range t.nodes.length).filter (t.Below c ·) := by
    simp only [Finset.mem_biUnion, List.mem_toFinset, Finset.mem_filter, not_exists, not_and]
    intro c hc _ hbelow
    have hle := h.rank_le_of_below hbelow
    have hlt := h.rank_lt i c hc
    omega
  have hapart : Set.PairwiseDisjoint ((t.children i).toFinset : Set Nat)
      fun c => (Finset.range t.nodes.length).filter (t.Below c ·) := by
    intro c hc c' hc' hne
    refine Finset.disjoint_left.2 fun j hj hj' => hne ?_
    rw [Finset.mem_coe, List.mem_toFinset] at hc hc'
    exact h.eq_of_below hc hc' (Finset.mem_filter.1 hj).2 (Finset.mem_filter.1 hj').2
  rw [holdings, hsplit, Finset.sum_insert hself, Finset.sum_biUnion hapart, List.sum_toFinset _ (h.nodup i)]
  rfl

/-- A node below the root counts what is held from there down. -/
theorem Stocked.free_eq_holdings (h : Stocked t rank) {r : Nat} (hr : t.root = some r) (hi : t.Below r i)
    (kind : SlotKind) : t.free i kind = t.holdings i kind := by
  induction hn : rank i using Nat.strong_induction_on generalizing i with
  | _ n ih =>
      rw [h.free_eq r hr i hi kind, h.forest.holdings_eq (h.forest.below_lt (h.top r hr).1 hi)]
      congr 2
      refine List.map_congr_left fun c hc => ?_
      exact ih (rank c) (hn ▸ h.forest.rank_lt i c hc) (hi.tail hc) rfl

open scoped Classical in
/-- The root counts what hangs under it, and nothing else. -/
theorem Stocked.capacity_eq (h : Stocked t rank) (kind : SlotKind) :
    t.capacity kind = ∑ i ∈ Finset.range t.nodes.length with t.Hangs i, t.stock i kind := by
  cases hr : t.root with
  | none => simp [capacity, Hangs, hr]
  | some r =>
      have hhangs (i : Nat) : t.Hangs i ↔ t.Below r i := by
        simp [Hangs, hr, h.forest.climbs_iff]
      simp only [hhangs]
      rw [capacity, hr]
      exact h.free_eq_holdings hr .refl kind

end SlotTree

end SurfaceFabric
