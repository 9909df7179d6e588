import SurfaceFabric.Proofs.Classes
import SurfaceFabric.Proofs.SlotTree.Hang

/-!
Joining routing segments. The tree stays a forest whose tops are the top nodes of the clusters, one for
each, and every routing segment lies below the top node of its cluster. Every round that finds a link between
two clusters loses a cluster, so the rounds end with no link between different clusters; if the links join all
routing segments, one cluster is left.
-/

namespace SurfaceFabric.SlotTree

/-- Leaves, then routing segments, then junctions in the order in which they are made; `n` routing
segments come first in the tree, and the leaves up to `base`. -/
def layerRank (n base i : Nat) : Nat :=
  if i < n then i + (base - n) else if i < base then i - n else i

theorem layerRank_lt {n base i m : Nat} (hn : n ≤ base) (hm : base ≤ m) (hi : i < m) :
    layerRank n base i < m := by
  unfold layerRank
  split
  · omega
  · split <;> omega

theorem layerRank_of_le {n base i : Nat} (hn : n ≤ base) (hi : base ≤ i) : layerRank n base i = i := by
  rw [layerRank, if_neg (by omega), if_neg (by omega)]

structure Grown (n base : Nat) (planted t : SlotTree) : Prop where
  forest : Forest t (layerRank n base)
  bounds : n ≤ base ∧ base ≤ t.nodes.length
  kinds_eq : ∃ k, t.kinds = planted.kinds ++ List.replicate k .junction
  parent?_eq : ∀ i p, planted.parent? i = some p → t.parent? i = some p

/-- The nodes without a parent are the listed ones at active positions, each once. -/
structure Topped (t : SlotTree) (tops : List Nat) (active : Nat → Prop) : Prop where
  lt_length : ∀ l a, active l → tops[l]? = some a → a < t.nodes.length
  top_iff : ∀ a < t.nodes.length, t.parent? a = none ↔ ∃ l, active l ∧ tops[l]? = some a
  injective : ∀ l l' a, active l → active l' → tops[l]? = some a → tops[l']? = some a → l = l'

theorem Topped.congr {t : SlotTree} {tops : List Nat} {active active' : Nat → Prop}
    (h : Topped t tops active) (hiff : ∀ l, active' l ↔ active l) : Topped t tops active' := by
  rwa [show active' = active from funext fun l => propext (hiff l)]

section Tops

variable {t u : SlotTree} {tops ls : List Nat} {active active' : Nat → Prop} {leader l a : Nat}
  (h : Topped t tops active) (hls : ∀ l ∈ ls, active l)

include h hls

theorem Topped.spare (ha : a ∈ ls.filterMap fun l => tops[l]?) : a < t.nodes.length ∧ t.parent? a = none := by
  obtain ⟨l, hl, hla⟩ := List.mem_filterMap.1 ha
  have hlt := h.lt_length l a (hls l hl) hla
  exact ⟨hlt, (h.top_iff a hlt).2 ⟨l, hls l hl, hla⟩⟩

theorem Topped.nodup (hnodup : ls.Nodup) : (ls.filterMap fun l => tops[l]?).Nodup := by
  refine List.pairwise_filterMap.2 (hnodup.imp_of_mem ?_)
  rintro l l' hl hl' hne a ha a' ha' rfl
  exact hne (h.injective l l' a (hls l hl) (hls l' hl') ha ha')

variable (hkeep : ∀ l, active' l ↔ active l ∧ (l ∈ ls → l = leader))

include hkeep

/-- A top node at another position that stays is none of those that are joined. -/
theorem Topped.other (hl : active' l) (hne : l ≠ leader) (ha : tops[l]? = some a) :
    active l ∧ a < t.nodes.length ∧ a ∉ ls.filterMap fun l => tops[l]? := by
  obtain ⟨hact, hjoined⟩ := (hkeep l).1 hl
  refine ⟨hact, h.lt_length l a hact ha, fun hmem => ?_⟩
  obtain ⟨l', hl', ha'⟩ := List.mem_filterMap.1 hmem
  have heq := h.injective l l' a hact (hls l' hl') ha ha'
  exact hne (hjoined (heq ▸ hl'))

/-- A new node above the top nodes at some positions takes the place of one of them. -/
theorem Topped.cover (hlt : leader < tops.length) (hleader : leader ∈ ls)
    (hlength : u.nodes.length = t.nodes.length + 1) (hparent : ∀ j, u.parent? j =
      if j ∈ ls.filterMap fun l => tops[l]? then some t.nodes.length else t.parent? j) :
    Topped u (tops.set leader t.nodes.length) active' := by
  have htops (l : Nat) : (tops.set leader t.nodes.length)[l]? =
      if l = leader then some t.nodes.length else tops[l]? := by
    rw [List.getElem?_set, if_pos hlt]
    simp only [eq_comm]
  refine ⟨fun l a hl ha => ?_, fun a halt => ?_, fun l l' a hl hl' ha ha' => ?_⟩
  · rw [htops] at ha
    rw [hlength]
    split at ha
    · cases ha
      omega
    · next hne =>
        have := (h.other hls hkeep hl hne ha).2.1
        omega
  · rw [hlength] at halt
    rw [hparent]
    constructor
    · intro htop
      split at htop
      · cases htop
      · next hnew =>
          by_cases ha : a = t.nodes.length
          · exact ⟨leader, (hkeep leader).2 ⟨hls leader hleader, fun _ => rfl⟩, by rw [htops, if_pos rfl, ha]⟩
          · obtain ⟨l, hl, hla⟩ := (h.top_iff a (by omega)).1 htop
            have hout : l ∉ ls := fun hmem => hnew (List.mem_filterMap.2 ⟨l, hmem, hla⟩)
            refine ⟨l, (hkeep l).2 ⟨hl, fun hmem => absurd hmem hout⟩, ?_⟩
            rw [htops, if_neg (by rintro rfl; exact hout hleader), hla]
    · rintro ⟨l, hl, hla⟩
      rw [htops] at hla
      split at hla
      · cases hla
        rw [if_neg fun hmem => Nat.lt_irrefl _ (h.spare hls hmem).1]
        simp [parent?, node?]
      · next hne =>
          obtain ⟨hact, halt', hnew⟩ := h.other hls hkeep hl hne hla
          rw [if_neg hnew]
          exact (h.top_iff a halt').2 ⟨l, hact, hla⟩
  · rw [htops] at ha ha'
    split at ha <;> split at ha'
    · next h₁ h₂ => rw [h₁, h₂]
    · next hne =>
        cases ha
        exact absurd (h.other hls hkeep hl' hne ha').2.1 (Nat.lt_irrefl _)
    · next hne _ =>
        cases ha'
        exact absurd (h.other hls hkeep hl hne ha).2.1 (Nat.lt_irrefl _)
    · next hne hne' =>
        exact h.injective l l' a (h.other hls hkeep hl hne ha).1 (h.other hls hkeep hl' hne' ha').1 ha ha'

end Tops

section Junction

variable {t planted : SlotTree} {n base : Nat}

theorem Forest.attachAll {rank : Nat → Nat} (h : Forest t rank) (top : Nat)
    (htop : top < t.nodes.length) (hinner : ∀ k, t.kinds[top]? = some k → k.isLeaf = false)
    {members : List Nat} (hnodup : members.Nodup)
    (hmembers : ∀ m ∈ members, m < t.nodes.length ∧ t.parent? m = none ∧ rank m < rank top) :
    Forest (members.foldl (fun t m => t.attach top m) t) rank ∧
      (members.foldl (fun t m => t.attach top m) t).kinds = t.kinds ∧
      ∀ j, (members.foldl (fun t m => t.attach top m) t).parent? j =
        if j ∈ members then some top else t.parent? j := by
  induction members generalizing t with
  | nil => exact ⟨h, rfl, fun j => by simp⟩
  | cons m members ih =>
      obtain ⟨hnew, hrest⟩ := List.nodup_cons.1 hnodup
      obtain ⟨hlt, hfree, hrank⟩ := hmembers m List.mem_cons_self
      have hne : top ≠ m := by
        rintro rfl
        omega
      have hparent (j : Nat) : (t.attach top m).parent? j = if j = m then some top else t.parent? j :=
        parent?_attach hne hlt
      obtain ⟨hforest, hkinds, hparents⟩ := ih (h.attach htop hlt hfree hrank hinner)
        (by rwa [length_attach]) (by rwa [kinds_attach]) hrest (by
          intro x hx
          obtain ⟨hxlt, hxfree, hxrank⟩ := hmembers x (List.mem_cons_of_mem _ hx)
          rw [length_attach, hparent, if_neg (by rintro rfl; exact hnew hx)]
          exact ⟨hxlt, hxfree, hxrank⟩)
      refine ⟨hforest, hkinds.trans (kinds_attach ..), fun j => ?_⟩
      rw [List.foldl_cons, hparents, hparent]
      by_cases hj : j ∈ members
      · rw [if_pos hj, if_pos (List.mem_cons_of_mem _ hj)]
      · rw [if_neg hj]
        simp [List.mem_cons, hj]

/-- A new junction over nodes without a parent. -/
theorem Grown.cover (h : Grown n base planted t) {members : List Nat} (hnodup : members.Nodup)
    (hmembers : ∀ m ∈ members, m < t.nodes.length ∧ t.parent? m = none) :
    Grown n base planted (t.cover members) ∧ (t.cover members).nodes.length = t.nodes.length + 1 ∧
      ∀ j, (t.cover members).parent? j =
        if j ∈ members then some t.nodes.length else t.parent? j := by
  obtain ⟨hn, hbase⟩ := h.bounds
  have hkinds : (t.push (.isolated .junction 0)).kinds = t.kinds ++ [.junction] := kinds_push ..
  have hinner : ∀ k, (t.push (.isolated .junction 0)).kinds[t.nodes.length]? = some k →
      k.isLeaf = false := by
    intro k hk
    rw [kinds_getElem?, node?_push, if_pos rfl, Option.map_some, Option.some.injEq] at hk
    rw [← hk]
    rfl
  obtain ⟨hforest, hsame, hparents⟩ := (h.forest.push .junction 0).attachAll t.nodes.length
    (by simp) hinner hnodup (by
      intro m hm
      obtain ⟨hlt, hfree⟩ := hmembers m hm
      refine ⟨by rw [length_push]; omega, by rw [parent?_push_isolated, hfree], ?_⟩
      rw [layerRank_of_le hn hbase]
      exact layerRank_lt hn hbase hlt)
  have hlength := (length_eq_of_kinds hsame).trans (length_push t _)
  obtain ⟨k, hk⟩ := h.kinds_eq
  have hcover (j : Nat) : (t.cover members).parent? j =
      if j ∈ members then some t.nodes.length else t.parent? j := by
    rw [SlotTree.cover, hparents, parent?_push_isolated]
  refine ⟨⟨hforest, ⟨hn, ?_⟩, ⟨k + 1, ?_⟩, fun i p hp => ?_⟩, hlength, hcover⟩
  · rw [SlotTree.cover, hlength]
    omega
  · rw [SlotTree.cover, hsame, hkinds, hk, List.append_assoc, List.replicate_succ']
  · have hkept := h.parent?_eq i p hp
    rw [hcover, if_neg, hkept]
    intro hmem
    rw [(hmembers i hmem).2] at hkept
    cases hkept

end Junction

namespace Clustering

variable {c : Clustering} {planted : SlotTree} {n base : Nat} {former done : List Nat} {leader : Nat}

/-- Positions of top nodes while the clusters that share a leader are joined, the leaders in `done`
being through. -/
def Active (former : List Nat) (classes : Classes) (done : List Nat) (l : Nat) : Prop :=
  l ∈ former ∧ (classes.leader l ∈ done → classes.leader l = l)

/-- The position of the top node over a routing segment, while clusters are joined. -/
def keeper (former classes : Classes) (done : List Nat) (i : Nat) : Nat :=
  if classes.leader i ∈ done then classes.leader i else former.leader i

/-- A forest with as many positions of top nodes as there are routing segments. Each segment lies below the top
node at its own position. -/
structure Joining (n base : Nat) (planted : SlotTree) (active : Nat → Prop) (position : Nat → Nat)
    (c : Clustering) : Prop where
  grown : Grown n base planted c.tree
  length_tops : c.tops.length = n
  topped : Topped c.tree c.tops active
  sheltered : ∀ i < n, ∃ a, c.tops[position i]? = some a ∧ c.tree.Climbs i a

section Members

variable {active : Nat → Prop} {position : Nat → Nat} {ls : List Nat}

theorem Joining.tops_getElem? (h : Joining n base planted active position c) {l : Nat} (hl : l < n) :
    ∃ a, c.tops[l]? = some a :=
  ⟨_, List.getElem?_eq_getElem (h.length_tops ▸ hl)⟩

theorem Joining.members_length (h : Joining n base planted active position c) (hls : ∀ l ∈ ls, l < n) :
    (ls.filterMap fun l => c.tops[l]?).length = ls.length := by
  refine List.filterMap_length_eq_length.2 fun l hl => ?_
  obtain ⟨a, ha⟩ := h.tops_getElem? (hls l hl)
  rw [ha]
  rfl

/-- A junction over the top nodes at some active positions takes the place of one of them. -/
theorem Joining.cover {active' : Nat → Prop} {position' : Nat → Nat}
    (h : Joining n base planted active position c) (hleader : leader ∈ ls) (hlt : leader < n)
    (hls : ∀ l ∈ ls, active l) (hnodup : ls.Nodup)
    (hkeep : ∀ l, active' l ↔ active l ∧ (l ∈ ls → l = leader))
    (hposition : ∀ i < n, position' i = if position i ∈ ls then leader else position i) :
    Joining n base planted active' position' { c with
      tree := c.tree.cover (ls.filterMap fun l => c.tops[l]?)
      tops := c.tops.set leader c.tree.nodes.length } := by
  obtain ⟨hgrown, hlength, hparent⟩ := h.grown.cover (h.topped.nodup hls hnodup)
    fun a ha => h.topped.spare hls ha
  have hlt' : leader < c.tops.length := h.length_tops ▸ hlt
  refine ⟨hgrown, by rw [List.length_set, h.length_tops],
    h.topped.cover hls hkeep hlt' hleader hlength hparent, fun i hi => ?_⟩
  -- a segment stays below its top node, which is now below the junction if it was joined
  obtain ⟨a, ha, hclimb⟩ := h.sheltered i hi
  have hkept : (c.tree.cover (ls.filterMap fun l => c.tops[l]?)).Climbs i a := by
    refine hclimb.mono fun x p hp => ?_
    rw [hparent, if_neg, hp]
    intro hmem
    rw [(h.topped.spare hls hmem).2] at hp
    cases hp
  rw [hposition i hi]
  split
  · next hmem =>
      refine ⟨c.tree.nodes.length, List.getElem?_set_self hlt', hkept.tail ?_⟩
      rw [hparent, if_pos (List.mem_filterMap.2 ⟨_, hmem, ha⟩)]
  · next hmem =>
      have hne : leader ≠ position i := fun heq => hmem (heq ▸ hleader)
      exact ⟨a, by rw [List.getElem?_set_ne hne, ha], hkept⟩

/-- A position that is joined with no other keeps its top node. -/
theorem Joining.alone {active' : Nat → Prop} {position' : Nat → Nat} {top : Nat}
    (h : Joining n base planted active position c) (hleader : leader ∈ ls) (hls : ∀ l ∈ ls, l < n)
    (htop : (ls.filterMap fun l => c.tops[l]?) = [top])
    (hkeep : ∀ l, active' l ↔ active l ∧ (l ∈ ls → l = leader))
    (hposition : ∀ i < n, position' i = if position i ∈ ls then leader else position i) :
    Joining n base planted active' position' { c with tops := c.tops.set leader top } := by
  have hone : ls.length = 1 := by rw [← h.members_length hls, htop, List.length_singleton]
  obtain ⟨l, hl⟩ := List.length_eq_one_iff.1 hone
  obtain rfl : leader = l := List.mem_singleton.1 (hl ▸ hleader)
  obtain ⟨a, ha⟩ := h.tops_getElem? (hls leader hleader)
  obtain rfl : a = top := by simpa [hl, ha] using htop
  have hset : c.tops.set leader a = c.tops := by
    obtain ⟨hlt', rfl⟩ := List.getElem?_eq_some_iff.1 ha
    exact List.set_getElem_self hlt'
  rw [hset]
  refine ⟨h.grown, h.length_tops, h.topped.congr fun l => ?_, fun i hi => ?_⟩
  · rw [hkeep, hl, List.mem_singleton, and_iff_left id]
  · have hsame : position' i = position i := by
      rw [hposition i hi, hl]
      split
      · next hin => exact (List.mem_singleton.1 hin).symm
      · rfl
    rw [hsame]
    exact h.sheltered i hi

end Members

theorem keeper_mem_roots {old new : Classes} {i : Nat} (hco : old.Coarser new n) (hold : old.Led n)
    (hi : i < n) : keeper old new done i ∈ old.roots := by
  unfold keeper
  split
  · exact hco.roots_subset hold (hco.led.leader_mem_roots hi)
  · exact hold.leader_mem_roots hi

theorem leader_keeper {old new : Classes} {i : Nat} (hco : old.Coarser new n) (hold : old.Led n)
    (hi : i < n) : new.leader (keeper old new done i) = new.leader i := by
  unfold keeper
  split
  · exact hco.led.idem i hi
  · exact hco.same _ (hold.lt i hi) i hi (hold.idem i hi)

/-- Positions that stay active are those outside the joined clusters, and the leader. -/
theorem active_cons {classes : Classes} {l : Nat} : Active former classes (leader :: done) l ↔
    Active former classes done l ∧ (l ∈ former.filter (fun l => classes.leader l == leader) → l = leader) := by
  simp only [Active, List.mem_filter, beq_iff_eq, List.mem_cons]
  constructor
  · rintro ⟨hl, hdone⟩
    refine ⟨⟨hl, fun hd => hdone (.inr hd)⟩, fun ⟨_, hlead⟩ => ?_⟩
    rw [← hdone (.inl hlead), hlead]
  · rintro ⟨⟨hl, hdone⟩, hls⟩
    refine ⟨hl, fun hd => ?_⟩
    rcases hd with hd | hd
    · rw [hd, hls ⟨hl, hd⟩]
    · exact hdone hd

theorem keeper_cons {old new : Classes} (hco : old.Coarser new n) (hold : old.Led n) {i : Nat} (hi : i < n) :
    keeper old new (leader :: done) i =
      if keeper old new done i ∈ old.roots.filter (fun l => new.leader l == leader) then leader
      else keeper old new done i := by
  have hinside : keeper old new done i ∈ old.roots.filter (fun l => new.leader l == leader) ↔
      new.leader i = leader := by
    rw [List.mem_filter, beq_iff_eq, leader_keeper hco hold hi, and_iff_right (keeper_mem_roots hco hold hi)]
  by_cases hi' : new.leader i = leader
  · rw [if_pos (hinside.2 hi'), keeper, hi', if_pos List.mem_cons_self]
  · rw [if_neg fun hmem => hi' (hinside.1 hmem)]
    simp only [keeper, List.mem_cons, hi', false_or]

/-- The clusters of one leader get a common top node. -/
theorem Joining.join {old : Classes} (hco : old.Coarser c.classes n) (hold : old.Led n)
    (h : Joining n base planted (Active old.roots c.classes done) (keeper old c.classes done) c)
    (hleader : leader ∈ c.classes.roots) (hnew : leader ∉ done) :
    Joining n base planted (Active old.roots c.classes (leader :: done)) (keeper old c.classes (leader :: done))
      (Clustering.join old.roots c leader) := by
  obtain ⟨hlt, hself⟩ := hco.led.mem_roots.1 hleader
  have hmem {l : Nat} : l ∈ old.roots.filter (fun l => c.classes.leader l == leader) ↔
      l ∈ old.roots ∧ c.classes.leader l = leader := by
    simp
  have hinside := hmem.2 ⟨hco.roots_subset hold hleader, hself⟩
  unfold Clustering.join
  dsimp only
  split
  · next top htop =>
      refine h.alone hinside (fun l hl => ?_) htop (fun l => active_cons) fun i => keeper_cons hco hold
      exact (hold.mem_roots.1 (hmem.1 hl).1).1
  · refine h.cover hinside hlt (fun l hl => ⟨(hmem.1 hl).1, fun hdone => ?_⟩) (old.nodup_roots.filter _)
      (fun l => active_cons) fun i => keeper_cons hco hold
    rw [(hmem.1 hl).2] at hdone
    exact absurd hdone hnew

theorem classes_join (former : List Nat) (c : Clustering) (leader : Nat) :
    (Clustering.join former c leader).classes = c.classes := by
  unfold Clustering.join
  dsimp only
  split <;> rfl

/-- Every cluster has a top node of its own over its segments, and no other node is without a parent. -/
structure Clustered (n base : Nat) (planted : SlotTree) (c : Clustering) : Prop where
  led : c.classes.Led n
  joining : Joining n base planted (· ∈ c.classes.roots) c.classes.leader c

theorem top?_eq_some {a : Nat} (h : c.top? = some a) :
    ∃ l, c.classes.roots.head? = some l ∧ l ∈ c.classes.roots ∧ c.tops[l]? = some a := by
  obtain ⟨l, hl, ha⟩ := Option.bind_eq_some_iff.1 h
  exact ⟨l, hl, List.mem_of_head? hl, ha⟩

theorem Clustered.crowned (h : Clustered n base planted c) : c.rooted.Crowned := by
  intro r hr
  obtain ⟨l, -, hl, htop⟩ := top?_eq_some hr
  have hlt := h.joining.topped.lt_length l r hl htop
  exact ⟨hlt, (h.joining.topped.top_iff r hlt).2 ⟨l, hl, htop⟩⟩

/-- The segments under the root are those of the first cluster. -/
theorem Clustered.hangs_iff (h : Clustered n base planted c) {i : Nat} (hi : i < n) :
    c.rooted.Hangs i ↔ c.classes.roots.head? = some (c.classes.leader i) := by
  have hroot := h.led.leader_mem_roots hi
  obtain ⟨a, ha, hclimb⟩ := h.joining.sheltered i hi
  constructor
  · rintro ⟨r, hr, hclimb'⟩
    obtain ⟨l, hhead, hl, htop⟩ := top?_eq_some hr
    have hlt := h.joining.topped.lt_length _ a hroot ha
    have hra : r = a := hclimb'.top_unique hclimb (h.crowned r hr).2
      ((h.joining.topped.top_iff a hlt).2 ⟨_, hroot, ha⟩)
    rw [hhead, h.joining.topped.injective _ _ a hl hroot (hra ▸ htop) ha]
  · intro hhead
    refine ⟨a, ?_, hclimb⟩
    rw [Clustering.rooted, top?, hhead]
    exact ha

theorem Joining.foldl_join {old : Classes} (hold : old.Led n) {leaders : List Nat}
    (hco : old.Coarser c.classes n)
    (h : Joining n base planted (Active old.roots c.classes done) (keeper old c.classes done) c)
    (hleaders : ∀ l ∈ leaders, l ∈ c.classes.roots ∧ l ∉ done) (hnodup : leaders.Nodup) :
    (leaders.foldl (Clustering.join old.roots) c).classes = c.classes ∧
      Joining n base planted (Active old.roots c.classes (leaders.reverse ++ done))
        (keeper old c.classes (leaders.reverse ++ done)) (leaders.foldl (Clustering.join old.roots) c) := by
  induction leaders generalizing c done with
  | nil => exact ⟨rfl, h⟩
  | cons l leaders ih =>
      obtain ⟨hnew, hrest⟩ := List.nodup_cons.1 hnodup
      obtain ⟨hl, hdone⟩ := hleaders l List.mem_cons_self
      have hclasses := classes_join old.roots c l
      have hstep := h.join hco hold hl hdone
      rw [← hclasses] at hstep
      obtain ⟨hsame, hjoining⟩ := ih (by rwa [hclasses]) hstep (by
        intro k hk
        rw [hclasses]
        refine ⟨(hleaders k (List.mem_cons_of_mem _ hk)).1, fun hmem => ?_⟩
        rcases List.mem_cons.1 hmem with rfl | hmem
        · exact hnew hk
        · exact (hleaders k (List.mem_cons_of_mem _ hk)).2 hmem) hrest
      refine ⟨hsame.trans hclasses, ?_⟩
      rw [hclasses] at hjoining
      simpa using hjoining

/-- Merging clusters along links and joining their top nodes. -/
theorem Clustered.merge (h : Clustered n base planted c) {links : List Link}
    (hlinks : ∀ l ∈ links, l.i < n ∧ l.j < n) {classes : Classes}
    (hclasses : classes = links.foldl (fun k l => k.merge l.i l.j) c.classes) :
    c.classes.Coarser classes n ∧ (∀ l ∈ links, classes.leader l.i = classes.leader l.j) ∧
      (classes.roots.foldl (Clustering.join c.classes.roots) { c with classes := classes }).classes =
        classes ∧
      Clustered n base planted
        (classes.roots.foldl (Clustering.join c.classes.roots) { c with classes := classes }) := by
  obtain ⟨hco, hjoined⟩ := h.led.foldl_merge Link.i Link.j hlinks
  rw [← hclasses] at hco hjoined
  have hstart : Joining n base planted (Active c.classes.roots classes []) (keeper c.classes classes [])
      { c with classes := classes } := by
    refine ⟨h.joining.grown, h.joining.length_tops, h.joining.topped.congr fun l => ?_, h.joining.sheltered⟩
    simp [Active]
  have hleaders : ∀ l ∈ classes.roots, l ∈ classes.roots ∧ l ∉ [] :=
    fun l hl => ⟨hl, List.not_mem_nil⟩
  obtain ⟨hsame, hjoining⟩ := Joining.foldl_join (c := { c with classes := classes }) h.led hco hstart
    hleaders classes.nodup_roots
  refine ⟨hco, hjoined, hsame,
    ⟨by rw [hsame]; exact hco.led, hjoining.grown, hjoining.length_tops, ?_, fun i hi => ?_⟩⟩
  · refine hjoining.topped.congr fun l => ?_
    rw [hsame, Active, List.append_nil, List.mem_reverse, hco.led.mem_roots, h.led.mem_roots]
    constructor
    · rintro ⟨hlt, hself⟩
      refine ⟨⟨hlt, ?_⟩, fun _ => hself⟩
      have := hco.former l hlt
      rwa [hself] at this
    · rintro ⟨⟨hlt, -⟩, hdone⟩
      exact ⟨hlt, hdone (hco.led.leader_mem_roots hlt)⟩
  · have hthrough : keeper c.classes classes (classes.roots.reverse ++ []) i = classes.leader i := by
      rw [keeper, if_pos]
      simpa using hco.led.leader_mem_roots hi
    rw [hsame, ← hthrough]
    exact hjoining.sheltered i hi

section Links

variable {g : AccessGraph} {routes : List Nat}

theorem mem_outgoing {e : Nat × Link} : e ∈ outgoing g routes c ↔ ∃ i a b j,
    routes[i]? = some a ∧ b ∈ g.neighbours a ∧ routes.findIdx? (· == b) = some j ∧
      c.classes.leader i ≠ c.classes.leader j ∧
      e = (c.classes.leader i, ⟨min a b, max a b, i, j⟩) := by
  unfold outgoing
  simp only [List.mem_flatMap, List.mem_filterMap, Prod.exists, List.mem_zipIdx_iff_getElem?]
  constructor
  · rintro ⟨a, i, hi, b, hb, he⟩
    cases hj : routes.findIdx? (· == b) with
    | none => simp [hj] at he
    | some j =>
        simp only [hj, Option.bind_eq_bind, Option.bind_some] at he
        split at he
        · cases he
        · next hne =>
            cases he
            exact ⟨i, a, b, j, hi, hb, hj, hne, rfl⟩
  · rintro ⟨i, a, b, j, hi, hb, hj, hne, rfl⟩
    refine ⟨a, i, hi, b, hb, ?_⟩
    simp [hj, hne]

theorem exists_of_mem_chosen {links : List (Nat × Link)} {l : Link} (h : l ∈ c.chosen links) :
    ∃ leader, (leader, l) ∈ links := by
  obtain ⟨leader, -, hl⟩ := List.mem_filterMap.1 h
  obtain ⟨⟨leader', l'⟩, hmem, rfl⟩ := List.mem_map.1 (mem_of_extreme? hl)
  exact ⟨leader', (List.mem_filter.1 hmem).1⟩

theorem chosen_ne_nil {links : List (Nat × Link)} {e : Nat × Link} (he : e ∈ links)
    (hroot : e.1 ∈ c.classes.roots) : c.chosen links ≠ [] := by
  have hmem : e.2 ∈ (links.filter fun l => l.1 == e.1).map Prod.snd :=
    List.mem_map.2 ⟨e, List.mem_filter.2 ⟨he, beq_self_eq_true _⟩, rfl⟩
  cases hl : (links.filter fun l => l.1 == e.1).map Prod.snd with
  | nil => rw [hl] at hmem; cases hmem
  | cons l ls =>
      refine List.ne_nil_of_mem (a := ls.foldl (fun best b => if Link.before best b then best else b) l) ?_
      exact List.mem_filterMap.2 ⟨e.1, hroot, by rw [hl, extreme?]⟩

theorem Clustered.of_mem_outgoing (h : Clustered routes.length base planted c) {e : Nat × Link}
    (he : e ∈ outgoing g routes c) : e.1 ∈ c.classes.roots ∧ e.2.i < routes.length ∧
      e.2.j < routes.length ∧ c.classes.leader e.2.i ≠ c.classes.leader e.2.j := by
  obtain ⟨i, a, b, j, hi, -, hj, hne, rfl⟩ := mem_outgoing.1 he
  have hilt := (List.getElem?_eq_some_iff.1 hi).1
  have hjlt := (List.findIdx?_eq_some_iff_getElem.1 hj).1
  exact ⟨h.led.leader_mem_roots hilt, hilt, hjlt, hne⟩

/-- As many rounds as there are clusters end with no link between different ones. -/
theorem Clustered.rounds (h : Clustered routes.length base planted c) {fuel : Nat}
    (hfuel : c.classes.roots.length ≤ fuel) :
    Clustered routes.length base planted (Clustering.rounds g routes fuel c) ∧
      outgoing g routes (Clustering.rounds g routes fuel c) = [] := by
  induction fuel generalizing c with
  | zero =>
      refine ⟨h, List.eq_nil_iff_forall_not_mem.2 fun e he => ?_⟩
      have := List.length_pos_of_mem (h.of_mem_outgoing he).1
      omega
  | succ fuel ih =>
      rw [Clustering.rounds]
      split
      · next hnone =>
          refine ⟨h, List.eq_nil_iff_forall_not_mem.2 fun e he => ?_⟩
          exact chosen_ne_nil he (h.of_mem_outgoing he).1 hnone
      · next links hsome =>
          have hlinks : ∀ l ∈ c.chosen (outgoing g routes c), l.i < routes.length ∧
              l.j < routes.length ∧ c.classes.leader l.i ≠ c.classes.leader l.j := by
            intro l hl
            obtain ⟨leader, he⟩ := exists_of_mem_chosen hl
            exact (h.of_mem_outgoing he).2
          obtain ⟨hco, hjoined, hsame, hnext⟩ := h.merge
            (fun l hl => ⟨(hlinks l hl).1, (hlinks l hl).2.1⟩) rfl
          -- the first link joins two clusters
          obtain ⟨l, hl⟩ := List.exists_mem_of_ne_nil _ hsome
          obtain ⟨hi, hj, hne⟩ := hlinks l hl
          have hfewer := hco.roots_length_lt h.led hi hj hne (hjoined l hl)
          exact ih hnext (by rw [hsame]; omega)

/-- Routing segments joined by links between routing segments. -/
def Bonded (g : AccessGraph) (routes : List Nat) : Nat → Nat → Prop :=
  Relation.ReflTransGen fun a b => a ∈ routes ∧ b ∈ routes ∧ b ∈ g.neighbours a

/-- Routing segments joined by links end up in one cluster. -/
theorem leader_eq_of_outgoing (hnodup : routes.Nodup) (hnone : outgoing g routes c = [])
    {i j a b : Nat} (hi : routes[i]? = some a) (hj : routes[j]? = some b) (hab : Bonded g routes a b) :
    c.classes.leader i = c.classes.leader j := by
  induction hab generalizing j with
  | refl =>
      have := (List.getElem?_inj (List.getElem?_eq_some_iff.1 hi).1 hnodup).1 (hi.trans hj.symm)
      rw [this]
  | @tail a' b hreach hstep ih =>
      obtain ⟨hroute, -, hb⟩ := hstep
      obtain ⟨k, hk⟩ := List.mem_iff_getElem?.1 hroute
      rw [ih hk]
      by_contra hne
      have hfind : routes.findIdx? (· == b) = some j := by
        obtain ⟨hlt, hget⟩ := List.getElem?_eq_some_iff.1 hj
        refine List.findIdx?_eq_some_iff_getElem.2 ⟨hlt, by simp [hget], fun m hm => ?_⟩
        rw [beq_iff_eq, ← hget, hnodup.getElem_inj_iff]
        omega
      have : (c.classes.leader k, (⟨min a' b, max a' b, k, j⟩ : Link)) ∈ outgoing g routes c :=
        mem_outgoing.2 ⟨k, a', b, j, hk, hb, hfind, hne, rfl⟩
      rw [hnone] at this
      cases this

/-- Routing segments that are all joined by links end up under one root. -/
theorem Clustered.rooted (h : Clustered routes.length base planted c) (hnodup : routes.Nodup)
    (hne : routes ≠ []) (hnone : outgoing g routes c = [])
    (hjoined : ∀ a ∈ routes, ∀ b ∈ routes, Bonded g routes a b) : ∃ r, c.rooted.Rooted r := by
  have hpos : 0 < routes.length := List.length_pos_iff.2 hne
  have hroots : c.classes.roots = [c.classes.leader 0] := by
    refine List.perm_singleton.1 ((List.perm_ext_iff_of_nodup c.classes.nodup_roots (by simp)).2 ?_)
    intro l
    rw [List.mem_singleton]
    constructor
    · intro hl
      obtain ⟨hlt, hself⟩ := h.led.mem_roots.1 hl
      rw [← hself]
      exact leader_eq_of_outgoing hnodup hnone (List.getElem?_eq_getElem hlt)
        (List.getElem?_eq_getElem hpos)
        (hjoined _ (List.getElem_mem hlt) _ (List.getElem_mem hpos))
    · rintro rfl
      exact h.led.leader_mem_roots hpos
  obtain ⟨r, hr⟩ := h.joining.tops_getElem? (h.led.lt 0 hpos)
  have hroot : c.classes.leader 0 ∈ c.classes.roots := h.led.leader_mem_roots hpos
  have hlt := h.joining.topped.lt_length _ r hroot hr
  refine ⟨r, ?_, hlt, (h.joining.topped.top_iff r hlt).2 ⟨_, hroot, hr⟩, ?_⟩
  · simp [Clustering.rooted, top?, hroots, hr]
  · intro i hi htop
    obtain ⟨l, hl, hli⟩ := (h.joining.topped.top_iff i hi).1 htop
    rw [hroots, List.mem_singleton] at hl
    rw [hl, hr] at hli
    cases hli
    exact .inl rfl

end Links

/-- The first `k` of `n` routing segments have a junction over them, made in their order. -/
structure Raised (n k base : Nat) (planted : SlotTree) (c : Clustering) : Prop where
  grown : Grown n base planted c.tree
  classes : c.classes = .ofSize n
  length : c.tree.nodes.length = base + k
  tops : c.tops = (List.range k).map (base + ·)
  top_iff : ∀ a < base + k, c.tree.parent? a = none ↔ (k ≤ a ∧ a < n) ∨ base ≤ a
  roof : ∀ i < k, c.tree.parent? i = some (base + i)

theorem Raised.raise {k : Nat} (h : Raised n k base planted c) (hk : k < n) :
    Raised n (k + 1) base planted (c.raise k) := by
  have hn := h.grown.bounds.1
  have hlength := h.length
  obtain ⟨hgrown, hcover, hparent⟩ := h.grown.cover (List.nodup_singleton k) (by
    intro m hm
    rw [List.mem_singleton.1 hm, hlength]
    exact ⟨by omega, (h.top_iff k (by omega)).2 (.inl ⟨Nat.le_refl k, hk⟩)⟩)
  refine ⟨hgrown, h.classes, ?_, ?_, fun a ha => ?_, fun i hi => ?_⟩
  · rw [Clustering.raise, hcover, hlength]
    omega
  · rw [Clustering.raise, h.tops, hlength, List.range_succ, List.map_append]
    rfl
  · rw [Clustering.raise, hparent]
    by_cases hak : a = k
    · simp only [hak, List.mem_singleton, if_true, reduceCtorEq, false_iff]
      omega
    · simp only [List.mem_singleton, hak, if_false]
      by_cases hlast : a = base + k
      · have hnone : c.tree.parent? a = none := by
          rw [parent?, node?, List.getElem?_eq_none (by omega)]
          rfl
        rw [hnone]
        simp only [true_iff]
        omega
      · rw [h.top_iff a (by omega)]
        omega
  · rw [Clustering.raise, hparent]
    by_cases hik : i = k
    · simp [hik, hlength]
    · simp only [List.mem_singleton, hik, if_false]
      exact h.roof i (by omega)

theorem clustered_start {t : SlotTree} (h : Grown n base planted t) (hbase : t.nodes.length = base)
    (htops : ∀ a < base, t.parent? a = none ↔ a < n) : Clustered n base planted (start t n) := by
  have hrun (k : Nat) (hk : k ≤ n) :
      Raised n k base planted ((List.range k).foldl Clustering.raise ⟨t, .ofSize n, []⟩) := by
    induction k with
    | zero =>
        refine ⟨h, rfl, hbase, rfl, fun a ha => ?_, fun i hi => absurd hi (Nat.not_lt_zero i)⟩
        refine (htops a ha).trans ?_
        omega
    | succ k ih =>
        rw [List.range_succ, List.foldl_append]
        exact (ih (by omega)).raise (by omega)
  have hraised : Raised n n base planted (start t n) := hrun n (Nat.le_refl n)
  have hroots (l : Nat) : l ∈ (start t n).classes.roots ↔ l < n := by
    rw [hraised.classes, (Classes.led_ofSize n).mem_roots, Classes.leader_ofSize]
    exact and_iff_left rfl
  have hget {l a : Nat} : (start t n).tops[l]? = some a ↔ l < n ∧ base + l = a := by
    rw [hraised.tops, List.getElem?_map]
    by_cases hl : l < n
    · simp [hl]
    · rw [List.getElem?_eq_none (by simpa using hl)]
      simp [hl]
  have hlength := hraised.length
  refine ⟨by rw [hraised.classes]; exact Classes.led_ofSize n, hraised.grown, ?_, ⟨?_, ?_, ?_⟩, fun i hi => ?_⟩
  · rw [hraised.tops]
    simp
  · intro l a hl ha
    obtain ⟨hlt, rfl⟩ := hget.1 ha
    omega
  · intro a ha
    rw [hraised.top_iff a (by omega)]
    constructor
    · intro htop
      exact ⟨a - base, (hroots _).2 (by omega), hget.2 ⟨by omega, by omega⟩⟩
    · rintro ⟨l, -, hl⟩
      have := (hget.1 hl).2
      omega
  · intro l l' a _ _ ha ha'
    have := (hget.1 ha).2
    have := (hget.1 ha').2
    omega
  · refine ⟨base + i, ?_, .single (hraised.roof i hi)⟩
    rw [hraised.classes, Classes.leader_ofSize, hget]
    exact ⟨hi, rfl⟩

end Clustering

end SurfaceFabric.SlotTree
