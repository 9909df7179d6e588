import Mathlib.Data.List.Induction
import SurfaceFabric.Proofs.SlotTree.Forest

/-!
What hangs under the root of a slot tree. A forest may have several tops, and only what lies below the one that
is the root takes part in the counts. Putting an only child into its junction's place moves no other node in or
out: the way up from a node loses the junction, and if the junction was the root its child takes over.
-/

namespace SurfaceFabric.SlotTree

variable {t u : SlotTree} {rank : Nat → Nat} {i j c p a b x : Nat}

/-- Following parents from node `i` leads to node `j`. -/
def Climbs (t : SlotTree) : Nat → Nat → Prop := Relation.ReflTransGen fun i p => t.parent? i = some p

def Hangs (t : SlotTree) (i : Nat) : Prop := ∃ r, t.root = some r ∧ t.Climbs i r

def Crowned (t : SlotTree) : Prop := ∀ r, t.root = some r → r < t.nodes.length ∧ t.parent? r = none

theorem Forest.climbs_iff (h : Forest t rank) : t.Climbs i j ↔ t.Below j i := by
  have hflip : (fun i p => t.parent? i = some p) = Function.swap fun p i => i ∈ t.children p := by
    funext i p
    exact propext (h.parent_iff p i).symm
  rw [Climbs, hflip, Relation.reflTransGen_swap]
  rfl

theorem Climbs.mono (hkeep : ∀ i p, t.parent? i = some p → u.parent? i = some p) (h : t.Climbs i j) :
    u.Climbs i j :=
  Relation.ReflTransGen.mono hkeep _ _ h

/-- Of two nodes above a third one lies above the other. -/
theorem Climbs.total (ha : t.Climbs i a) (hb : t.Climbs i b) : t.Climbs a b ∨ t.Climbs b a := by
  refine Relation.ReflTransGen.total_of_right_unique ?_ ha hb
  intro i p q hp hq
  rw [hp, Option.some.injEq] at hq
  exact hq

theorem Climbs.eq_of_top (h : t.Climbs a b) (htop : t.parent? a = none) : a = b := by
  rcases Relation.ReflTransGen.cases_head h with heq | ⟨p, hp, -⟩
  · exact heq
  · rw [htop] at hp
    cases hp

/-- Every node is below one top at most. -/
theorem Climbs.top_unique (ha : t.Climbs i a) (hb : t.Climbs i b) (htopa : t.parent? a = none)
    (htopb : t.parent? b = none) : a = b := by
  rcases ha.total hb with hab | hba
  · exact hab.eq_of_top htopa
  · exact (hba.eq_of_top htopb).symm

/-- A node hangs under the root with its parent. -/
theorem Crowned.hangs_iff_parent (hc : t.Crowned) (hp : t.parent? i = some p) : t.Hangs i ↔ t.Hangs p := by
  constructor
  · rintro ⟨r, hr, hclimb⟩
    rcases Relation.ReflTransGen.cases_head hclimb with rfl | ⟨q, hq, hrest⟩
    · rw [(hc i hr).2] at hp
      cases hp
    · rw [hp, Option.some.injEq] at hq
      exact ⟨r, hr, hq ▸ hrest⟩
  · rintro ⟨r, hr, hclimb⟩
    exact ⟨r, hr, .head hp hclimb⟩

theorem hangs_congr (hroot : u.root = t.root) (hparent : ∀ i, u.parent? i = t.parent? i) :
    u.Hangs i ↔ t.Hangs i := by
  simp only [Hangs, Climbs, hroot, hparent]

namespace Single

theorem root_promote (hs : t.Single i c) : (t.promote i).root =
    if t.parent? i = none ∧ t.root = some i then some c else t.root := by
  rw [hs.promote_eq]
  exact root_replace ..

theorem parent?_eq_iff (hs : t.Single i c) (h : Forest t rank) : t.parent? j = some i ↔ j = c := by
  rw [← h.parent_iff, hs.only, List.mem_singleton]

end Single

namespace Forest

theorem crowned_promote (h : Forest t rank) (hc : t.Crowned) (i : Nat) : (t.promote i).Crowned := by
  rcases promote_cases t i with heq | ⟨c, hs⟩
  · rwa [heq]
  have hmem : c ∈ t.children i := by simp [hs.only]
  have hlength : (t.promote i).nodes.length = t.nodes.length := length_eq_of_kinds (kinds_promote t i)
  intro r hr
  rw [hs.root_promote] at hr
  rw [hlength, h.parent?_promote hs]
  split at hr
  · next htop =>
      cases hr
      rw [if_neg (h.ne_of_mem hmem).symm, if_pos rfl]
      exact ⟨(h.lt_length hmem).2, htop.1⟩
  · next hother =>
      obtain ⟨hlt, htop⟩ := hc r hr
      have hri : r ≠ i := by
        rintro rfl
        exact hother ⟨htop, hr⟩
      have hrc : r ≠ c := by
        rintro rfl
        rw [(hs.parent?_eq_iff h).2 rfl] at htop
        cases htop
      rw [if_neg hri, if_neg hrc]
      exact ⟨hlt, htop⟩

/-- What hung under the root still does, the child standing for its junction. -/
theorem hangs_promote_of_hangs (h : Forest t rank) (hc : t.Crowned) (hs : t.Single i c) (hx : t.Hangs x) :
    (t.promote i).Hangs (if x = i then c else x) := by
  have hparent (j : Nat) : (t.promote i).parent? j =
      if j = i then none else if j = c then t.parent? i else t.parent? j := h.parent?_promote hs
  have hmem : c ∈ t.children i := by simp [hs.only]
  have hci : c ≠ i := (h.ne_of_mem hmem).symm
  obtain ⟨r, hr, hclimb⟩ := hx
  induction hclimb using Relation.ReflTransGen.head_induction_on with
  | refl =>
      by_cases hri : r = i
      · refine ⟨c, ?_, by rw [if_pos hri]; exact .refl⟩
        rw [hs.root_promote, if_pos ⟨hri ▸ (hc r hr).2, hri ▸ hr⟩]
      · refine ⟨r, ?_, by rw [if_neg hri]; exact .refl⟩
        rw [hs.root_promote, if_neg, hr]
        rintro ⟨-, hroot⟩
        rw [hr, Option.some.injEq] at hroot
        exact hri hroot
  | @head x y hstep hrest ih =>
      obtain ⟨r', hr', hclimb'⟩ := ih
      by_cases hy : y = i
      · -- the node below the junction is its child
        obtain rfl : x = c := (hs.parent?_eq_iff h).1 (hy ▸ hstep)
        rw [if_pos hy] at hclimb'
        rw [if_neg hci]
        exact ⟨r', hr', hclimb'⟩
      · rw [if_neg hy] at hclimb'
        refine ⟨r', hr', .head ?_ hclimb'⟩
        by_cases hxi : x = i
        · rw [if_pos hxi, hparent, if_neg hci, if_pos rfl, ← hxi]
          exact hstep
        · have hxc : x ≠ c := by
            rintro rfl
            rw [(hs.parent?_eq_iff h).2 rfl, Option.some.injEq] at hstep
            exact hy hstep.symm
          rw [if_neg hxi, hparent, if_neg hxi, if_neg hxc]
          exact hstep

/-- What hangs under the root after a junction is taken out did so before. -/
theorem hangs_of_hangs_promote (h : Forest t rank) (hs : t.Single i c) (hx : (t.promote i).Hangs x) :
    t.Hangs x := by
  obtain ⟨r, hr, hclimb⟩ := hx
  have hci : t.parent? c = some i := (hs.parent?_eq_iff h).2 rfl
  have hback : t.Climbs x r := by
    clear hr
    induction hclimb with
    | refl => exact .refl
    -- a step from the child to the junction's parent went by way of the junction
    | @tail y z hreach hstep ih =>
        rw [h.parent?_promote hs] at hstep
        split at hstep
        · cases hstep
        · split at hstep
          · next hy => exact (ih.tail (hy ▸ hci)).tail hstep
          · exact ih.tail hstep
  rw [hs.root_promote] at hr
  split at hr
  · next htop =>
      cases hr
      exact ⟨i, htop.2, hback.tail hci⟩
  · exact ⟨r, hr, hback⟩

/-- Taking a junction out moves no other node in or out of the tree below the root. -/
theorem hangs_promote_iff (h : Forest t rank) (hc : t.Crowned) (hx : t.kinds[x]? ≠ some .junction) :
    (t.promote i).Hangs x ↔ t.Hangs x := by
  rcases promote_cases t i with heq | ⟨c, hs⟩
  · rw [heq]
  refine ⟨h.hangs_of_hangs_promote hs, fun hhangs => ?_⟩
  have hne : x ≠ i := by
    rintro rfl
    exact hx hs.junction
  have hkept := h.hangs_promote_of_hangs hc hs hhangs
  rwa [if_neg hne] at hkept

/-- A node keeps a parent that is no junction. -/
theorem parent?_promote_of_inner (h : Forest t rank) (hp : t.parent? x = some p)
    (hx : t.kinds[x]? ≠ some .junction) (hkind : t.kinds[p]? ≠ some .junction) :
    (t.promote i).parent? x = some p := by
  rcases promote_cases t i with heq | ⟨c, hs⟩
  · rwa [heq]
  have hxi : x ≠ i := by
    rintro rfl
    exact hx hs.junction
  have hxc : x ≠ c := by
    rintro rfl
    rw [(hs.parent?_eq_iff h).2 rfl, Option.some.injEq] at hp
    exact hkind (hp ▸ hs.junction)
  rw [h.parent?_promote hs, if_neg hxi, if_neg hxc, hp]

end Forest

/-- A tree that comes about by taking junctions out of a forest, whatever number of tops it has. -/
structure Pruned (t u : SlotTree) (rank : Nat → Nat) : Prop where
  forest : Forest u rank
  crowned : u.Crowned
  kinds : u.kinds = t.kinds
  hangs_iff : ∀ x, t.kinds[x]? ≠ some .junction → (u.Hangs x ↔ t.Hangs x)
  parent? : ∀ x p, t.parent? x = some p → t.kinds[x]? ≠ some .junction → t.kinds[p]? ≠ some .junction →
    u.parent? x = some p

theorem Forest.pruned_collapse (h : Forest t rank) (hc : t.Crowned) : Pruned t t.collapse rank := by
  -- from the end of the list, since each junction is taken out of what the ones before it have left
  have hrun (l : List Nat) : Pruned t (l.foldl SlotTree.promote t) rank := by
    induction l using List.reverseRecOn with
    | nil => exact ⟨h, hc, rfl, fun _ _ => Iff.rfl, fun _ _ hp _ _ => hp⟩
    | append_singleton l i ih =>
        rw [List.foldl_append, List.foldl_cons, List.foldl_nil]
        refine ⟨ih.forest.promote i, ih.forest.crowned_promote ih.crowned i, ?_, fun x hx => ?_,
          fun x p hp hx hkind => ?_⟩
        · rw [kinds_promote, ih.kinds]
        · rw [ih.forest.hangs_promote_iff ih.crowned (by rwa [ih.kinds]), ih.hangs_iff x hx]
        · exact ih.forest.parent?_promote_of_inner (ih.parent? x p hp hx hkind) (by rwa [ih.kinds])
            (by rwa [ih.kinds])
  exact hrun _

end SurfaceFabric.SlotTree
