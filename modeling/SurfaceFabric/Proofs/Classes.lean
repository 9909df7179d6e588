import Mathlib.Data.List.Nodup
import Mathlib.Data.List.Perm.Subperm
import SurfaceFabric.Classes

/-!
Classes under merging. The leader of a class is a member of it, a merge joins what it is given and never
splits a class, and leaders are only ever lost. A merge of two different classes loses one.
-/

namespace SurfaceFabric.Classes

variable {c c' c'' : Classes} {n i j k l : Nat}

structure Led (c : Classes) (n : Nat) : Prop where
  length : c.leaders.length = n
  lt : ∀ k < n, c.leader k < n
  idem : ∀ k < n, c.leader (c.leader k) = c.leader k

theorem leader_ofSize (n k : Nat) : (ofSize n).leader k = k := by
  unfold leader ofSize
  by_cases hk : k < n
  · simp [hk]
  · rw [List.getElem?_eq_none (by simpa using hk)]
    rfl

theorem led_ofSize (n : Nat) : (ofSize n).Led n where
  length := List.length_range
  lt k hk := by rwa [leader_ofSize]
  idem k _ := by rw [leader_ofSize]

theorem Led.mem_roots (h : c.Led n) : k ∈ c.roots ↔ k < n ∧ c.leader k = k := by
  rw [roots, h.length, List.mem_filter, List.mem_range, beq_iff_eq]

theorem Led.leader_mem_roots (h : c.Led n) (hk : k < n) : c.leader k ∈ c.roots :=
  h.mem_roots.2 ⟨h.lt k hk, h.idem k hk⟩

theorem Led.roots_length_le (h : c.Led n) : c.roots.length ≤ n := by
  rw [roots, h.length]
  have := List.length_filter_le (fun i => c.leader i == i) (List.range n)
  rwa [List.length_range] at this

theorem nodup_roots (c : Classes) : c.roots.Nodup := List.nodup_range.filter _

theorem leader_relabel (h : c.leaders.length = n) (hk : k < n) (a b : Nat) :
    (c.relabel a b).leader k = if c.leader k = b then a else c.leader k := by
  have hlt : k < c.leaders.length := by omega
  simp [leader, relabel, List.getElem?_eq_getElem hlt]

/-- One of the two leaders takes over the class of the other. -/
theorem Led.leader_merge (h : c.Led n) (i j : Nat) : ∃ a b,
    ((a = c.leader i ∧ b = c.leader j) ∨ (a = c.leader j ∧ b = c.leader i)) ∧
      ∀ k < n, (c.merge i j).leader k = if c.leader k = b then a else c.leader k := by
  unfold merge
  dsimp only
  split
  · next heq =>
      refine ⟨c.leader i, c.leader j, .inl ⟨rfl, rfl⟩, fun k _ => ?_⟩
      split
      · next hk => rw [hk, heq]
      · rfl
  · split
    · exact ⟨_, _, .inr ⟨rfl, rfl⟩, fun k hk => leader_relabel h.length hk _ _⟩
    · split <;> exact ⟨_, _, .inl ⟨rfl, rfl⟩, fun k hk => leader_relabel h.length hk _ _⟩

structure Coarser (c c' : Classes) (n : Nat) : Prop where
  led : c'.Led n
  same : ∀ k < n, ∀ l < n, c.leader k = c.leader l → c'.leader k = c'.leader l
  former : ∀ k < n, c.leader (c'.leader k) = c'.leader k

namespace Coarser

theorem refl (h : c.Led n) : Coarser c c n := ⟨h, fun _ _ _ _ hkl => hkl, h.idem⟩

theorem trans (h : Coarser c c' n) (h' : Coarser c' c'' n) : Coarser c c'' n where
  led := h'.led
  same k hk l hl hkl := h'.same k hk l hl (h.same k hk l hl hkl)
  former k hk := by
    rw [← h'.former k hk]
    exact h.former _ (h'.led.lt k hk)

theorem merge (h : c.Led n) (hi : i < n) (hj : j < n) : Coarser c (c.merge i j) n := by
  obtain ⟨a, b, hab, hleader⟩ := h.leader_merge i j
  have ha : a < n ∧ c.leader a = a := by
    rcases hab with ⟨rfl, -⟩ | ⟨rfl, -⟩
    · exact ⟨h.lt i hi, h.idem i hi⟩
    · exact ⟨h.lt j hj, h.idem j hj⟩
  have hcases (k : Nat) (hk : k < n) :
      (c.merge i j).leader k = a ∨ ((c.merge i j).leader k = c.leader k ∧ c.leader k ≠ b) := by
    rw [hleader k hk]
    split
    · exact .inl rfl
    · next hne => exact .inr ⟨rfl, hne⟩
  refine ⟨⟨?_, ?_, ?_⟩, ?_, ?_⟩
  · rw [leaders_length_merge, h.length]
  · intro k hk
    rcases hcases k hk with heq | ⟨heq, -⟩
    · rw [heq]
      exact ha.1
    · rw [heq]
      exact h.lt k hk
  · intro k hk
    rcases hcases k hk with heq | ⟨heq, hne⟩
    · rw [heq, hleader a ha.1, ha.2]
      exact ite_id a
    · rw [heq, hleader _ (h.lt k hk), h.idem k hk, if_neg hne]
  · intro k hk l hl hkl
    rw [hleader k hk, hleader l hl, hkl]
  · intro k hk
    rcases hcases k hk with heq | ⟨heq, -⟩
    · rw [heq, ha.2]
    · rw [heq, h.idem k hk]

theorem roots_subset (h : Coarser c c' n) (hc : c.Led n) : c'.roots ⊆ c.roots := by
  intro k hk
  obtain ⟨hlt, hself⟩ := h.led.mem_roots.1 hk
  refine hc.mem_roots.2 ⟨hlt, ?_⟩
  have := h.former k hlt
  rwa [hself] at this

/-- Joining two classes loses a leader. -/
theorem roots_length_lt (h : Coarser c c' n) (hc : c.Led n) (hi : i < n) (hj : j < n)
    (hne : c.leader i ≠ c.leader j) (heq : c'.leader i = c'.leader j) :
    c'.roots.length < c.roots.length := by
  have hlead (k : Nat) (hk : k < n) : c'.leader (c.leader k) = c'.leader k :=
    h.same _ (hc.lt k hk) k hk (hc.idem k hk)
  have hlost : ∃ k ∈ c.roots, k ∉ c'.roots := by
    by_contra hall
    have hkept (k : Nat) (hk : k < n) : c'.leader (c.leader k) = c.leader k := by
      by_contra hno
      exact hall ⟨_, hc.leader_mem_roots hk, fun hmem => hno (h.led.mem_roots.1 hmem).2⟩
    apply hne
    rw [← hkept i hi, ← hkept j hj, hlead i hi, hlead j hj, heq]
  obtain ⟨k, hk, hgone⟩ := hlost
  have hsub : c'.roots ⊆ c.roots.erase k := by
    intro l hl
    refine (c.nodup_roots.mem_erase_iff).2 ⟨?_, h.roots_subset hc hl⟩
    rintro rfl
    exact hgone hl
  have hle := (c'.nodup_roots.subperm hsub).length_le
  rw [List.length_erase_of_mem hk] at hle
  have := List.length_pos_of_mem hk
  omega

end Coarser

theorem Led.merge_joins (h : c.Led n) (hi : i < n) (hj : j < n) :
    (c.merge i j).leader i = (c.merge i j).leader j := by
  obtain ⟨a, b, hab, hleader⟩ := h.leader_merge i j
  rw [hleader i hi, hleader j hj]
  rcases hab with ⟨rfl, rfl⟩ | ⟨rfl, rfl⟩
  · rw [if_pos rfl]
    exact ite_id _
  · rw [if_pos rfl]
    exact (ite_id _).symm

/-- Merging along a list of pairs. -/
theorem Led.foldl_merge {α : Type} (f g : α → Nat) (h : c.Led n) {es : List α}
    (hes : ∀ e ∈ es, f e < n ∧ g e < n) :
    Coarser c (es.foldl (fun c e => c.merge (f e) (g e)) c) n ∧ ∀ e ∈ es,
      (es.foldl (fun c e => c.merge (f e) (g e)) c).leader (f e) =
        (es.foldl (fun c e => c.merge (f e) (g e)) c).leader (g e) := by
  induction es generalizing c with
  | nil => exact ⟨.refl h, by simp⟩
  | cons e es ih =>
      obtain ⟨hf, hg⟩ := hes e List.mem_cons_self
      have hstep := Coarser.merge h hf hg
      obtain ⟨hco, hjoin⟩ := ih hstep.led fun e' he' => hes e' (List.mem_cons_of_mem _ he')
      refine ⟨hstep.trans hco, fun e' he' => ?_⟩
      rcases List.mem_cons.1 he' with rfl | he'
      · exact hco.same _ hf _ hg (h.merge_joins hf hg)
      · exact hjoin e' he'

section Related

variable {R : Nat → Nat → Prop}

/-- If members are related to their leaders and two members to each other, merging these keeps it so. -/
theorem Led.related_merge (hR : Equivalence R) (h : c.Led n) (hi : i < n) (hj : j < n)
    (hleaders : ∀ k < n, R k (c.leader k)) (hij : R i j) (hk : k < n) : R k ((c.merge i j).leader k) := by
  obtain ⟨a, b, hab, hleader⟩ := h.leader_merge i j
  have hba : R b a := by
    have hends : R (c.leader i) (c.leader j) :=
      hR.trans (hR.symm (hleaders i hi)) (hR.trans hij (hleaders j hj))
    rcases hab with ⟨rfl, rfl⟩ | ⟨rfl, rfl⟩
    · exact hR.symm hends
    · exact hends
  rw [hleader k hk]
  split
  · next heq => exact hR.trans (heq ▸ hleaders k hk) hba
  · exact hleaders k hk

theorem Led.related_foldl_merge {α : Type} (f g : α → Nat) (hR : Equivalence R) (h : c.Led n) {es : List α}
    (hes : ∀ e ∈ es, f e < n ∧ g e < n ∧ R (f e) (g e)) (hleaders : ∀ k < n, R k (c.leader k)) :
    ∀ k < n, R k ((es.foldl (fun c e => c.merge (f e) (g e)) c).leader k) := by
  induction es generalizing c with
  | nil => exact hleaders
  | cons e es ih =>
      obtain ⟨hf, hg, hrel⟩ := hes e List.mem_cons_self
      exact ih (Coarser.merge h hf hg).led (fun e' he' => hes e' (List.mem_cons_of_mem _ he'))
        fun k hk => h.related_merge hR hf hg hleaders hrel hk

end Related

end SurfaceFabric.Classes
