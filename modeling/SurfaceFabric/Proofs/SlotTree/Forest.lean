import Mathlib.Data.List.Nodup
import Mathlib.Data.List.Perm.Basic
import Mathlib.Data.Nat.Init
import Mathlib.Logic.Relation
import SurfaceFabric.SlotTree.Cluster

/-!
Slot trees as forests. Parents and children agree, requests go to children only, and a rank falls from
every node to its children, so no node lies below itself. Pushing a node on its own, attaching a node
without a parent, and putting an only child into its junction's place all keep a forest a forest.
-/

namespace SurfaceFabric.SlotTree

variable {t : SlotTree} {rank : Nat → Nat} {p c i j : Nat}

def parent? (t : SlotTree) (i : Nat) : Option Nat := (t.node? i).bind SlotNode.parent

def queue (t : SlotTree) (i : Nat) : List Nat := ((t.node? i).map SlotNode.queue).getD []

def kinds (t : SlotTree) : List SlotNodeKind := t.nodes.map SlotNode.kind

theorem node?_modify (t : SlotTree) (i j : Nat) (g : SlotNode → SlotNode) :
    (t.modify i g).node? j = if i = j then (t.node? j).map g else t.node? j := by
  simp only [node?, modify, List.getElem?_modify]
  split <;> simp [*]

theorem node?_push (t : SlotTree) (n : SlotNode) (j : Nat) :
    (t.push n).node? j = if j = t.nodes.length then some n else t.node? j := by
  simp only [node?, push]
  split
  · next h => simp [h]
  · next h =>
      by_cases hlt : j < t.nodes.length
      · rw [List.getElem?_append_left hlt]
      · rw [List.getElem?_eq_none (by simp; omega), List.getElem?_eq_none (by omega)]

theorem parent?_modify {g : SlotNode → SlotNode} (h : ∀ n, (g n).parent = n.parent) :
    (t.modify i g).parent? j = t.parent? j := by
  rw [parent?, node?_modify]
  split
  · rw [Option.bind_map]
    exact congrArg _ (funext h)
  · rfl

theorem exists_node? (h : i < t.nodes.length) : ∃ n, t.node? i = some n :=
  ⟨_, List.getElem?_eq_getElem h⟩

theorem lt_length_of_node? {n : SlotNode} (h : t.node? i = some n) : i < t.nodes.length :=
  (List.getElem?_eq_some_iff.1 h).1

theorem kinds_modify {g : SlotNode → SlotNode} (h : ∀ n, (g n).kind = n.kind) :
    (t.modify i g).kinds = t.kinds := by
  refine List.ext_getElem? fun k => ?_
  simp only [kinds, modify, List.getElem?_map, List.getElem?_modify]
  split
  · cases t.nodes[k]? <;> simp [h]
  · cases t.nodes[k]? <;> simp

theorem kinds_getElem? : t.kinds[i]? = (t.node? i).map SlotNode.kind := by
  simp [kinds, node?]

@[simp] theorem length_push (t : SlotTree) (n : SlotNode) :
    (t.push n).nodes.length = t.nodes.length + 1 := by
  simp [push]

@[simp] theorem kinds_push (t : SlotTree) (n : SlotNode) : (t.push n).kinds = t.kinds ++ [n.kind] := by
  simp [kinds, push]

theorem parent?_push_isolated (t : SlotTree) (k : SlotNodeKind) (w : Float) (j : Nat) :
    (t.push (.isolated k w)).parent? j = t.parent? j := by
  simp only [parent?, node?_push]
  split
  · next h =>
      have : t.node? j = none := List.getElem?_eq_none (by omega)
      simp [this, SlotNode.isolated]
  · rfl

/-- What a node on its own lacks, the others keep. -/
theorem view_push_isolated {α : Type} {f : SlotNode → α} {k : SlotNodeKind} {w : Float} {d : α}
    (h : f (.isolated k w) = d) :
    (((t.push (.isolated k w)).node? j).map f).getD d = ((t.node? j).map f).getD d := by
  rw [node?_push]
  split
  · next hj =>
      have hnone : t.node? j = none := List.getElem?_eq_none (by omega)
      rw [hnone]
      exact h
  · rfl

theorem children_push_isolated (t : SlotTree) (k : SlotNodeKind) (w : Float) (j : Nat) :
    (t.push (.isolated k w)).children j = t.children j :=
  view_push_isolated rfl

theorem queue_push_isolated (t : SlotTree) (k : SlotNodeKind) (w : Float) (j : Nat) :
    (t.push (.isolated k w)).queue j = t.queue j :=
  view_push_isolated rfl

theorem tally_push_isolated (t : SlotTree) (k : SlotNodeKind) (w : Float) (j : Nat) :
    (t.push (.isolated k w)).tally j = t.tally j :=
  view_push_isolated rfl

/-- Changing one node apart from a field leaves the field alone everywhere. -/
theorem map_node?_modify {α : Type} {f : SlotNode → α} {g : SlotNode → SlotNode}
    (h : ∀ n, f (g n) = f n) : ((t.modify i g).node? j).map f = (t.node? j).map f := by
  rw [node?_modify]
  split
  · cases t.node? j <;> simp [h]
  · rfl

@[simp] theorem length_attach (t : SlotTree) (p c : Nat) :
    (t.attach p c).nodes.length = t.nodes.length := by
  simp [attach]

@[simp] theorem kinds_attach (t : SlotTree) (p c : Nat) : (t.attach p c).kinds = t.kinds := by
  rw [attach, kinds_modify (by simp), kinds_modify (by simp)]

@[simp] theorem tally_attach (t : SlotTree) (p c j : Nat) : (t.attach p c).tally j = t.tally j := by
  rw [tally, attach, map_node?_modify (by simp), map_node?_modify (by simp)]
  rfl

theorem node?_attach (hne : p ≠ c) : (t.attach p c).node? j =
    if j = p then (t.node? j).map fun n =>
      { n with children := n.children ++ [c], queue := n.queue ++ [c] }
    else if j = c then (t.node? j).map fun n => { n with parent := some p }
    else t.node? j := by
  rw [attach, node?_modify, node?_modify]
  by_cases hp : j = p
  · subst hp
    rw [if_pos rfl, if_neg hne.symm, if_pos rfl]
  · rw [if_neg (Ne.symm hp), if_neg hp]
    by_cases hc : j = c
    · rw [if_pos hc.symm, if_pos hc]
    · rw [if_neg (Ne.symm hc), if_neg hc]

theorem parent?_attach (hne : p ≠ c) (hc : c < t.nodes.length) :
    (t.attach p c).parent? j = if j = c then some p else t.parent? j := by
  rw [parent?, node?_attach hne]
  by_cases hp : j = p
  · subst hp
    rw [if_pos rfl, if_neg hne, parent?, Option.bind_map]
    rfl
  · rw [if_neg hp]
    by_cases hj : j = c
    · subst hj
      obtain ⟨n, hn⟩ := exists_node? hc
      simp [hn]
    · rw [if_neg hj, if_neg hj]
      rfl

/-- A list of children to which attaching appends. -/
theorem view_attach {f : SlotNode → List Nat} (hp : p < t.nodes.length)
    (hparent : ∀ n, f { n with parent := some p } = f n)
    (hchild : ∀ n, f { n with children := n.children ++ [c], queue := n.queue ++ [c] } = f n ++ [c]) :
    (((t.attach p c).node? j).map f).getD [] =
      if j = p then ((t.node? j).map f).getD [] ++ [c] else ((t.node? j).map f).getD [] := by
  have hinner : ((t.modify c fun n => { n with parent := some p }).node? j).map f = (t.node? j).map f :=
    map_node?_modify hparent
  rw [attach, node?_modify]
  by_cases hj : j = p
  · subst hj
    obtain ⟨n, hn⟩ := exists_node? hp
    rw [hn, Option.map_some] at hinner
    obtain ⟨m, hm, heq⟩ := Option.map_eq_some_iff.1 hinner
    simp [hm, hn, hchild, heq]
  · rw [if_neg (Ne.symm hj), if_neg hj, hinner]

theorem children_attach (hp : p < t.nodes.length) :
    (t.attach p c).children j = if j = p then t.children j ++ [c] else t.children j :=
  view_attach hp (fun _ => rfl) fun _ => rfl

theorem queue_attach (hp : p < t.nodes.length) :
    (t.attach p c).queue j = if j = p then t.queue j ++ [c] else t.queue j :=
  view_attach hp (fun _ => rfl) fun _ => rfl

/-- Nodes with agreeing parents and children, and a rank that falls towards the leaves. -/
structure Forest (t : SlotTree) (rank : Nat → Nat) : Prop where
  parent_iff : ∀ i j, j ∈ t.children i ↔ t.parent? j = some i
  nodup : ∀ i, (t.children i).Nodup
  queue_perm : ∀ i, (t.queue i).Perm (t.children i)
  rank_lt : ∀ i j, j ∈ t.children i → rank j < rank i
  childless : ∀ i k, t.kinds[i]? = some k → k.isLeaf = true → t.children i = []
  keyed : ∀ i, (t.tally i).Keyed

namespace Forest

theorem lt_length (h : Forest t rank) (hj : j ∈ t.children i) :
    i < t.nodes.length ∧ j < t.nodes.length := by
  constructor
  · unfold children at hj
    cases hi : t.node? i with
    | none => simp [hi] at hj
    | some n => exact lt_length_of_node? hi
  · have hparent := (h.parent_iff i j).1 hj
    unfold parent? at hparent
    cases hn : t.node? j with
    | none => simp [hn] at hparent
    | some n => exact lt_length_of_node? hn

theorem empty : Forest empty rank := by
  constructor <;>
    simp [children, parent?, queue, kinds, node?, tally, SlotTree.empty, Tally.keyed_empty]

theorem withRoot (h : Forest t rank) (r : Option Nat) : Forest { t with root := r } rank :=
  ⟨h.parent_iff, h.nodup, h.queue_perm, h.rank_lt, h.childless, h.keyed⟩

theorem push (h : Forest t rank) (k : SlotNodeKind) (w : Float) :
    Forest (t.push (.isolated k w)) rank := by
  refine ⟨?_, ?_, ?_, ?_, ?_, ?_⟩
  · intro i j
    rw [children_push_isolated, parent?_push_isolated]
    exact h.parent_iff i j
  · intro i
    rw [children_push_isolated]
    exact h.nodup i
  · intro i
    rw [children_push_isolated, queue_push_isolated]
    exact h.queue_perm i
  · intro i j
    rw [children_push_isolated]
    exact h.rank_lt i j
  · intro i k' hk hleaf
    rw [children_push_isolated]
    rw [kinds_getElem?, node?_push] at hk
    split at hk
    · next hi =>
        have : t.node? i = none := List.getElem?_eq_none (by omega)
        simp [children, this]
    · exact h.childless i k' (by rwa [kinds_getElem?]) hleaf
  · intro i
    rw [tally_push_isolated]
    exact h.keyed i

/-- Attaching a node without a parent below one of higher rank. -/
theorem attach (h : Forest t rank) (hp : p < t.nodes.length) (hc : c < t.nodes.length)
    (hfree : t.parent? c = none) (hrank : rank c < rank p)
    (hinner : ∀ k, t.kinds[p]? = some k → k.isLeaf = false) : Forest (t.attach p c) rank := by
  have hne : p ≠ c := by
    rintro rfl
    omega
  have hfresh (i : Nat) : c ∉ t.children i := by
    intro hmem
    rw [h.parent_iff, hfree] at hmem
    cases hmem
  refine ⟨?_, ?_, ?_, ?_, ?_, ?_⟩
  · intro i j
    rw [children_attach hp, parent?_attach hne hc]
    by_cases hj : j = c
    · rw [if_pos hj, hj, Option.some.injEq]
      by_cases hi : i = p
      · simp [hi]
      · simp [hi, hfresh i, Ne.symm hi]
    · rw [if_neg hj]
      by_cases hi : i = p
      · simp [hi, hj, h.parent_iff]
      · simp [hi, h.parent_iff]
  · intro i
    rw [children_attach hp]
    split
    · exact List.nodup_append.2 ⟨h.nodup i, by simp, by
        intro a ha b hb heq
        rw [List.mem_singleton.1 hb] at heq
        exact hfresh i (heq ▸ ha)⟩
    · exact h.nodup i
  · intro i
    rw [children_attach hp, queue_attach hp]
    split
    · exact (h.queue_perm i).append_right _
    · exact h.queue_perm i
  · intro i j hj
    rw [children_attach hp] at hj
    split at hj
    · next hi =>
        rcases List.mem_append.1 hj with hj | hj
        · exact h.rank_lt i j hj
        · rw [List.mem_singleton.1 hj, hi]
          exact hrank
    · exact h.rank_lt i j hj
  · intro i k hk hleaf
    rw [kinds_attach] at hk
    rw [children_attach hp]
    split
    · next hi =>
        rw [hi] at hk
        rw [hinner k hk] at hleaf
        cases hleaf
    · exact h.childless i k hk hleaf
  · intro i
    rw [tally_attach]
    exact h.keyed i

end Forest

structure Single (t : SlotTree) (i child : Nat) : Prop where
  junction : t.kinds[i]? = some .junction
  only : t.children i = [child]

theorem promote_cases (t : SlotTree) (i : Nat) : t.promote i = t ∨ ∃ child, t.Single i child := by
  unfold promote
  split
  · next parent child _ _ _ hn => exact .inr ⟨child, by simp [kinds_getElem?, hn], by simp [children, hn]⟩
  · exact .inl rfl

theorem node?_replace (t : SlotTree) (parent : Option Nat) (a b j : Nat) :
    (t.replace parent a b).node? j = if parent = some j then (t.node? j).map fun n =>
      { n with children := replaceChild a b n.children, queue := replaceChild a b n.queue }
    else t.node? j := by
  unfold replace
  cases parent with
  | none => by_cases h : t.root = some a <;> simp [h, node?]
  | some p => simp [node?_modify]

theorem root_replace (t : SlotTree) (parent : Option Nat) (a b : Nat) :
    (t.replace parent a b).root = if parent = none ∧ t.root = some a then some b else t.root := by
  unfold replace
  cases parent with
  | none => by_cases h : t.root = some a <;> simp [h]
  | some p => simp [modify]

theorem Single.promote_eq (hs : t.Single i c) : t.promote i =
    ((t.modify c fun n => { n with parent := t.parent? i }).replace (t.parent? i) i c).modify i
      fun n => { n with parent := none, children := [], queue := [] } := by
  obtain ⟨hkind, hkids⟩ := hs
  cases hn : t.node? i with
  | none => simp [kinds_getElem?, hn] at hkind
  | some n =>
      obtain ⟨kind, parent, kids, w, q, free⟩ := n
      simp only [kinds_getElem?, hn, Option.map_some, Option.some.injEq] at hkind
      simp only [children, hn, Option.map_some, Option.getD_some] at hkids
      subst hkind hkids
      have hparent : t.parent? i = parent := by simp [parent?, hn]
      rw [hparent, promote, hn]

@[simp] theorem replaceChild_nil (a b : Nat) : replaceChild a b [] = [] := rfl

/-- A list of children in which promoting renames, and which it clears at the junction. -/
theorem view_promote {f : SlotNode → List Nat} (hs : t.Single i c)
    (hparent : ∀ n a, f { n with parent := a } = f n)
    (hreplace : ∀ n a, f { n with
      parent := a, children := replaceChild i c n.children, queue := replaceChild i c n.queue } =
        replaceChild i c (f n))
    (hclear : ∀ n : SlotNode, f { n with parent := none, children := [], queue := [] } = []) :
    (((t.promote i).node? j).map f).getD [] =
      if j = i then [] else if t.parent? i = some j then replaceChild i c (((t.node? j).map f).getD [])
      else ((t.node? j).map f).getD [] := by
  rw [hs.promote_eq, node?_modify, node?_replace, node?_modify]
  by_cases hi : j = i
  · rw [if_pos hi, if_pos hi.symm]
    split <;> split <;> cases t.node? j <;> simp [hclear]
  · rw [if_neg hi, if_neg (Ne.symm hi)]
    split <;> split <;> cases t.node? j <;> simp [hparent, hreplace]

theorem children_promote (hs : t.Single i c) : (t.promote i).children j =
    if j = i then [] else if t.parent? i = some j then replaceChild i c (t.children j)
    else t.children j :=
  view_promote hs (fun _ _ => rfl) (fun _ _ => rfl) fun _ => rfl

theorem queue_promote (hs : t.Single i c) : (t.promote i).queue j =
    if j = i then [] else if t.parent? i = some j then replaceChild i c (t.queue j)
    else t.queue j :=
  view_promote hs (fun _ _ => rfl) (fun _ _ => rfl) fun _ => rfl

theorem kinds_replace (t : SlotTree) (parent : Option Nat) (a b : Nat) :
    (t.replace parent a b).kinds = t.kinds := by
  unfold replace
  cases parent with
  | none => by_cases h : t.root = some a <;> simp [h, kinds]
  | some p => exact kinds_modify (by simp)

@[simp] theorem kinds_promote (t : SlotTree) (i : Nat) : (t.promote i).kinds = t.kinds := by
  rcases promote_cases t i with h | ⟨c, hs⟩
  · rw [h]
  · rw [hs.promote_eq, kinds_modify (by simp), kinds_replace, kinds_modify (by simp)]

theorem length_eq_of_kinds {u : SlotTree} (h : u.kinds = t.kinds) :
    u.nodes.length = t.nodes.length := by
  simpa [kinds] using congrArg List.length h

theorem tally_promote (t : SlotTree) (i j : Nat) : (t.promote i).tally j = t.tally j := by
  rcases promote_cases t i with h | ⟨c, hs⟩
  · rw [h]
  · rw [hs.promote_eq, tally, map_node?_modify (by simp), node?_replace]
    split
    · rw [Option.map_map, node?_modify]
      split <;> cases hn : t.node? j <;> simp [tally, hn]
    · rw [map_node?_modify (by simp)]
      rfl

namespace Forest

theorem ne_of_mem (h : Forest t rank) (hj : j ∈ t.children i) : i ≠ j := by
  have := h.rank_lt i j hj
  rintro rfl
  omega

theorem parent?_promote (h : Forest t rank) (hs : t.Single i c) : (t.promote i).parent? j =
    if j = i then none else if j = c then t.parent? i else t.parent? j := by
  have hmem : c ∈ t.children i := by simp [hs.only]
  obtain ⟨n, hn⟩ := exists_node? (h.lt_length hmem).2
  rw [parent?, hs.promote_eq, node?_modify, node?_replace, node?_modify]
  by_cases hi : j = i
  · rw [if_pos hi, if_pos hi.symm, Option.bind_map]
    simp
  · rw [if_neg hi, if_neg (Ne.symm hi)]
    by_cases hc : j = c
    · subst hc
      rw [if_pos rfl, if_pos rfl, hn]
      split <;> rfl
    · rw [if_neg hc, if_neg (Ne.symm hc)]
      split
      · rw [Option.bind_map]
        rfl
      · rfl

theorem mem_replaceChild {a b x : Nat} {l : List Nat} :
    x ∈ replaceChild a b l ↔ (x = b ∧ a ∈ l) ∨ (x ∈ l ∧ x ≠ a) := by
  unfold replaceChild
  rw [List.mem_map]
  constructor
  · rintro ⟨y, hy, rfl⟩
    split
    · next h => exact .inl ⟨rfl, h ▸ hy⟩
    · next h => exact .inr ⟨hy, h⟩
  · rintro (⟨rfl, ha⟩ | ⟨hx, hne⟩)
    · exact ⟨a, ha, if_pos rfl⟩
    · exact ⟨x, hx, if_neg hne⟩

/-- A name that is new to a list can take the place of another one. -/
theorem nodup_replaceChild {a b : Nat} {l : List Nat} (hl : l.Nodup) (hnew : b ∉ l) : (replaceChild a b l).Nodup := by
  refine hl.map_on ?_
  intro x hx y hy hxy
  split at hxy <;> split at hxy
  · next hxa hya => rw [hxa, hya]
  · exact absurd (hxy ▸ hy) hnew
  · exact absurd (hxy ▸ hx) hnew
  · exact hxy

theorem mem_children_promote (h : Forest t rank) (hs : t.Single i c) (a : Nat) :
    j ∈ (t.promote i).children a ↔ (t.promote i).parent? j = some a := by
  have hmem : c ∈ t.children i := by simp [hs.only]
  rw [children_promote hs, h.parent?_promote hs]
  by_cases ha : a = i
  · have hself : t.parent? i ≠ some i := fun hp => h.ne_of_mem ((h.parent_iff i i).2 hp) rfl
    have honly : t.parent? j = some i ↔ j = c := by rw [← h.parent_iff, hs.only]; simp
    rw [if_pos ha, ha]
    by_cases hj : j = i <;> by_cases hjc : j = c <;> simp [hj, hjc, hself, honly]
  · rw [if_neg ha]
    by_cases hp : t.parent? i = some a
    · rw [if_pos hp, mem_replaceChild, h.parent_iff, h.parent_iff]
      by_cases hj : j = i
      · simp [hj, hp, h.ne_of_mem hmem]
      · by_cases hjc : j = c <;> simp [hj, hjc, hp, (h.ne_of_mem hmem).symm]
    · rw [if_neg hp, h.parent_iff]
      by_cases hj : j = i
      · simp [hj, hp]
      · by_cases hjc : j = c
        · simp [hjc, (h.parent_iff i c).1 hmem, hp, Ne.symm ha]
        · simp [hj, hjc]

theorem promote (h : Forest t rank) (i : Nat) : Forest (t.promote i) rank := by
  rcases promote_cases t i with heq | ⟨c, hs⟩
  · rwa [heq]
  have hmem : c ∈ t.children i := by simp [hs.only]
  refine ⟨fun a j => h.mem_children_promote hs a, fun a => ?_, fun a => ?_, fun a j hj => ?_, fun a k hk hleaf => ?_,
    fun a => ?_⟩
  · rw [children_promote hs]
    split
    · exact List.nodup_nil
    · next ha =>
        split
        · -- the child hangs below `i`, so it is new below the parent of `i`
          refine nodup_replaceChild (h.nodup a) ?_
          rw [h.parent_iff, (h.parent_iff i c).1 hmem, Option.some.injEq]
          exact Ne.symm ha
        · exact h.nodup a
  · rw [children_promote hs, queue_promote hs]
    split
    · exact .refl _
    · split
      · exact (h.queue_perm a).map _
      · exact h.queue_perm a
  · rw [children_promote hs] at hj
    split at hj
    · cases hj
    · split at hj
      · rcases mem_replaceChild.1 hj with ⟨rfl, hi⟩ | ⟨hj, -⟩
        · exact Nat.lt_trans (h.rank_lt i j hmem) (h.rank_lt a i hi)
        · exact h.rank_lt a j hj
      · exact h.rank_lt a j hj
  · rw [kinds_promote] at hk
    have hnone := h.childless a k hk hleaf
    simp [children_promote hs, hnone]
  · rw [tally_promote]
    exact h.keyed a

end Forest

def Below (t : SlotTree) : Nat → Nat → Prop := Relation.ReflTransGen fun i j => j ∈ t.children i

/-- All nodes lie below the root, apart from junctions that have been taken out of the tree. -/
structure Rooted (t : SlotTree) (r : Nat) : Prop where
  root_eq : t.root = some r
  lt_length : r < t.nodes.length
  top : t.parent? r = none
  spare : ∀ i < t.nodes.length, t.parent? i = none →
    i = r ∨ (t.kinds[i]? = some .junction ∧ t.children i = [])

namespace Rooted

variable {r : Nat}

theorem promote (hr : t.Rooted r) (h : Forest t rank) (i : Nat) :
    ∃ r', (t.promote i).Rooted r' := by
  rcases promote_cases t i with heq | ⟨c, hs⟩
  · exact ⟨r, by rwa [heq]⟩
  have hlength : (t.promote i).nodes.length = t.nodes.length := length_eq_of_kinds (kinds_promote t i)
  have hmem : c ∈ t.children i := by simp [hs.only]
  have hc : t.parent? c = some i := (h.parent_iff i c).1 hmem
  have hlt := h.lt_length hmem
  have hroot : (t.promote i).root =
      if t.parent? i = none ∧ t.root = some i then some c else t.root := by
    rw [hs.promote_eq]
    exact root_replace ..
  have hspare (a : Nat) (ha : a < t.nodes.length) (hne : a ≠ c)
      (htop : (t.promote i).parent? a = none) :
      a = i ∨ a = r ∨ (t.kinds[a]? = some .junction ∧ (t.promote i).children a = []) := by
    rw [h.parent?_promote hs, if_neg hne] at htop
    by_cases hai : a = i
    · exact .inl hai
    · rw [if_neg hai] at htop
      rcases hr.spare a ha htop with rfl | ⟨hk, hkids⟩
      · exact .inr (.inl rfl)
      · refine .inr (.inr ⟨hk, ?_⟩)
        simp [children_promote hs, hkids]
  have hvacant : t.kinds[i]? = some .junction ∧ (t.promote i).children i = [] :=
    ⟨hs.junction, by rw [children_promote hs, if_pos rfl]⟩
  cases hp : t.parent? i with
  | none =>
      -- a junction with a child is not spare, so it was the root and its child is the new one
      have hir : i = r := by
        rcases hr.spare i hlt.1 hp with hir | ⟨-, hkids⟩
        · exact hir
        · rw [hkids] at hmem
          cases hmem
      subst hir
      refine ⟨c, ?_, by omega, ?_, ?_⟩
      · rw [hroot, if_pos ⟨hp, hr.root_eq⟩]
      · rw [h.parent?_promote hs, if_neg (h.ne_of_mem hmem).symm, if_pos rfl, hp]
      · intro a ha htop
        rw [kinds_promote]
        by_cases hac : a = c
        · exact .inl hac
        · rcases hspare a (by omega) hac htop with rfl | rfl | hj
          · exact .inr hvacant
          · exact .inr hvacant
          · exact .inr hj
  | some p =>
      have hri : r ≠ i := by
        rintro rfl
        rw [hr.top] at hp
        cases hp
      have hrc : r ≠ c := by
        rintro rfl
        rw [hr.top] at hc
        cases hc
      refine ⟨r, ?_, by rw [hlength]; exact hr.lt_length, ?_, ?_⟩
      · rw [hroot, if_neg (by simp [hp]), hr.root_eq]
      · rw [h.parent?_promote hs, if_neg hri, if_neg hrc, hr.top]
      · intro a ha htop
        rw [kinds_promote]
        by_cases hac : a = c
        · rw [h.parent?_promote hs, hac, if_neg (h.ne_of_mem hmem).symm, if_pos rfl, hp] at htop
          cases htop
        · rcases hspare a (by omega) hac htop with rfl | har | hj
          · exact .inr hvacant
          · exact .inl har
          · exact .inr hj

theorem collapse (hr : t.Rooted r) (h : Forest t rank) :
    Forest t.collapse rank ∧ t.collapse.kinds = t.kinds ∧ ∃ r', t.collapse.Rooted r' := by
  have hrun (l : List Nat) : ∀ u : SlotTree, Forest u rank → (∃ r', u.Rooted r') →
      Forest (l.foldl SlotTree.promote u) rank ∧ (l.foldl SlotTree.promote u).kinds = u.kinds ∧
        ∃ r', (l.foldl SlotTree.promote u).Rooted r' := by
    induction l with
    | nil => exact fun u hu hr' => ⟨hu, rfl, hr'⟩
    | cons i l ih =>
        rintro u hu ⟨r', hr'⟩
        obtain ⟨hforest, hkinds, hrooted⟩ := ih (u.promote i) (hu.promote i) (hr'.promote hu i)
        exact ⟨hforest, by rw [List.foldl_cons, hkinds, kinds_promote], hrooted⟩
  exact hrun _ t h ⟨r, hr⟩

end Rooted

end SurfaceFabric.SlotTree
