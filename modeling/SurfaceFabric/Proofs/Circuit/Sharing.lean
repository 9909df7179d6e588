import SurfaceFabric.Proofs.Circuit

/-!
Gates on a common symbol. A gate depends on the last earlier gate on each of its operands, so along the
dependencies one gets from a gate to every earlier gate that it shares an operand with.
-/

namespace SurfaceFabric.Circuit

variable {c : Circuit} {m n p : Nat} {s : Symbol}

def ActsOn (c : Circuit) (n : Nat) (s : Symbol) : Prop := ∃ g, c.gate? n = some g ∧ s ∈ g.operands

/-- The gate before another on a symbol. -/
structure Precedes (c : Circuit) (s : Symbol) (p n : Nat) : Prop where
  lt : p < n
  acts : c.ActsOn p s
  last : ∀ k, p < k → k < n → ¬c.ActsOn k s

instance (c : Circuit) (n : Nat) (s : Symbol) : Decidable (c.ActsOn n s) :=
  decidable_of_iff (∃ g ∈ c.gate? n, s ∈ g.operands) Iff.rfl

instance (c : Circuit) (s : Symbol) (p n : Nat) : Decidable (c.Precedes s p n) :=
  decidable_of_iff (p < n ∧ c.ActsOn p s ∧ ∀ k < n, p < k → ¬c.ActsOn k s)
    ⟨fun h => ⟨h.1, h.2.1, fun k hp hn => h.2.2 k hn hp⟩,
      fun h => ⟨h.lt, h.acts, fun k hn hp => h.last k hp hn⟩⟩

theorem lookup_cons_eq (t : Symbol) (k : Nat) (uses : List (Symbol × Nat)) (u : Symbol) :
    ((t, k) :: uses).lookup u = if u = t then some k else uses.lookup u := by
  by_cases hu : u = t
  · simp [hu]
  · have hbeq : (u == t) = false := beq_false_of_ne hu
    rw [List.lookup_cons, hbeq, if_neg hu]

theorem lookup_noteUse (n : Nat) (uses : List (Symbol × Nat)) (s u : Symbol) :
    (noteUse n uses s).lookup u = if u = s then some n else uses.lookup u := by
  induction uses with
  | nil => exact lookup_cons_eq s n [] u
  | cons first rest ih =>
      obtain ⟨t, k⟩ := first
      rw [noteUse]
      split
      · next ht =>
          subst ht
          rw [lookup_cons_eq, lookup_cons_eq]
          split <;> rfl
      · next ht =>
          rw [lookup_cons_eq, lookup_cons_eq, ih]
          by_cases hu : u = t
          · simp [hu, ht]
          · simp [hu]

theorem lookup_foldl_noteUse (n : Nat) (operands : List Symbol) (uses : List (Symbol × Nat))
    (u : Symbol) : (operands.foldl (noteUse n) uses).lookup u =
      if u ∈ operands then some n else uses.lookup u := by
  induction operands generalizing uses with
  | nil => simp
  | cons s rest ih =>
      rw [List.foldl_cons, ih, lookup_noteUse]
      by_cases hrest : u ∈ rest <;> by_cases hs : u = s <;> simp [hrest, hs]

theorem lastUse?_append (c : Circuit) (g : Gate) (s : Symbol) :
    (c.append g).lastUse? s = if s ∈ g.operands then some c.size else c.lastUse? s :=
  lookup_foldl_noteUse c.size g.operands c.lastUses s

theorem actsOn_append {g : Gate} :
    (c.append g).ActsOn n s ↔ n = c.size ∧ s ∈ g.operands ∨ n ≠ c.size ∧ c.ActsOn n s := by
  simp only [ActsOn, gate?, node?_append]
  by_cases hn : n = c.size <;> simp [hn]

theorem lt_size_of_gate? {g : Gate} (h : c.gate? n = some g) : n < c.size := by
  obtain ⟨node, hnode, -⟩ := gate?_eq_some_iff.1 h
  exact node?_lt hnode

theorem ActsOn.lt_size (h : c.ActsOn n s) : n < c.size := by
  obtain ⟨g, hg, -⟩ := h
  exact lt_size_of_gate? hg

/-- The last use of a symbol is by a gate on it that comes after all others. -/
theorem Built.exists_lastUse (h : Built c) (hm : c.ActsOn m s) :
    ∃ p, c.lastUse? s = some p ∧ m ≤ p ∧ c.ActsOn p s := by
  induction h with
  | empty => exact absurd hm.lt_size (Nat.not_lt_zero m)
  | @add c c' g _ hadd ih =>
      obtain ⟨-, rfl⟩ := add_eq_ok_iff.1 hadd
      rw [lastUse?_append]
      split
      · next hs =>
          refine ⟨c.size, rfl, ?_, actsOn_append.2 (.inl ⟨rfl, hs⟩)⟩
          have hlt := hm.lt_size
          rw [size_append] at hlt
          omega
      · next hs =>
          rcases actsOn_append.1 hm with ⟨-, hs'⟩ | ⟨-, hm⟩
          · exact absurd hs' hs
          · obtain ⟨p, hp, hle, hacts⟩ := ih hm
            exact ⟨p, hp, hle, actsOn_append.2 (.inr ⟨hacts.lt_size.ne, hacts⟩)⟩

theorem Built.exists_dependency (h : Built c) (hlt : m < n) (hm : c.ActsOn m s) (hn : c.ActsOn n s) :
    ∃ p ∈ c.dependencies n, m ≤ p ∧ c.ActsOn p s := by
  induction h with
  | empty => exact absurd hm.lt_size (Nat.not_lt_zero m)
  | @add c c' g hbuilt hadd ih =>
      obtain ⟨-, rfl⟩ := add_eq_ok_iff.1 hadd
      have hold (k : Nat) (hk : c.ActsOn k s) : (c.append g).ActsOn k s :=
        actsOn_append.2 (.inr ⟨hk.lt_size.ne, hk⟩)
      rw [dependencies, node?_append]
      rcases actsOn_append.1 hn with ⟨rfl, hs⟩ | ⟨hne, hn⟩
      · -- the new gate depends on the last use of the symbol so far
        have hm : c.ActsOn m s := ((actsOn_append.1 hm).resolve_left fun h => hlt.ne h.1).2
        obtain ⟨p, hp, hle, hacts⟩ := hbuilt.exists_lastUse hm
        refine ⟨p, ?_, hle, hold p hacts⟩
        rw [if_pos rfl]
        exact mem_sortedSet.2 (List.mem_filterMap.2 ⟨s, hs, hp⟩)
      · have hm : c.ActsOn m s :=
          ((actsOn_append.1 hm).resolve_left fun h => (hlt.trans hn.lt_size).ne h.1).2
        obtain ⟨p, hp, hle, hacts⟩ := ih hm hn
        rw [if_neg hne]
        exact ⟨p, hp, hle, hold p hacts⟩

theorem Built.lt_of_mem_dependencies (h : Built c) (hp : p ∈ c.dependencies n) : p < n := by
  cases hnode : c.node? n with
  | none => simp [dependencies, hnode] at hp
  | some node => exact h.dependencies_lt hnode (by simpa [dependencies, hnode] using hp)

theorem Built.precedes_mem (h : Built c) (hp : c.Precedes s p n) (hn : c.ActsOn n s) :
    p ∈ c.dependencies n := by
  obtain ⟨k, hk, hle, hacts⟩ := h.exists_dependency hp.lt hp.acts hn
  -- no gate on the symbol lies between
  rcases Nat.eq_or_lt_of_le hle with rfl | hbetween
  · exact hk
  · exact absurd hacts (hp.last k hbetween (h.lt_of_mem_dependencies hk))

/-- Where what a gate depends on is done along with it, so are all earlier gates on its operands. -/
theorem Built.mem_of_shared (h : Built c) {done : List Nat}
    (hdone : ∀ p ∈ done, ∀ q ∈ c.dependencies p, q ∈ done) (hn : ∀ p ∈ c.dependencies n, p ∈ done)
    (hlt : m < n) (hm : c.ActsOn m s) (hs : c.ActsOn n s) : m ∈ done := by
  induction n using Nat.strong_induction_on with
  | _ n ih =>
      obtain ⟨p, hp, hle, hacts⟩ := h.exists_dependency hlt hm hs
      obtain rfl | hlater := Nat.eq_or_lt_of_le hle
      · exact hn m hp
      · exact ih p (h.lt_of_mem_dependencies hp) (hdone p (hn p hp)) hlater hacts

/-- Gates have two operands at most, and a factory that a gate has beside another operand was put to use by
an earlier gate and has not been reset since. -/
def Staged (c : Circuit) : Prop :=
  ∀ n g, c.gate? n = some g → g.operands.length ≤ 2 ∧ (g.operands.length = 2 →
    ∀ s ∈ g.operands, s.isFactory = true →
      ∃ p g', c.Precedes s p n ∧ c.gate? p = some g' ∧ g'.isReset = false)

instance (c : Circuit) : Decidable c.Staged :=
  decidable_of_iff (∀ n ∈ List.range c.size, ∀ g ∈ c.gate? n, g.operands.length ≤ 2 ∧
      (g.operands.length = 2 → ∀ s ∈ g.operands, s.isFactory = true →
        ∃ p ∈ List.range n, c.Precedes s p n ∧ ∃ g' ∈ c.gate? p, g'.isReset = false)) <| by
    refine ⟨fun h n g hg => ?_, fun h n _ g hg => ?_⟩
    · obtain ⟨hlength, hstaged⟩ := h n (List.mem_range.2 (lt_size_of_gate? hg)) g hg
      refine ⟨hlength, fun hpair s hs hfactory => ?_⟩
      obtain ⟨p, -, hp, g', hg', hreset⟩ := hstaged hpair s hs hfactory
      exact ⟨p, g', hp, hg', hreset⟩
    · obtain ⟨hlength, hstaged⟩ := h n g hg
      refine ⟨hlength, fun hpair s hs hfactory => ?_⟩
      obtain ⟨p, g', hp, hg', hreset⟩ := hstaged hpair s hs hfactory
      exact ⟨p, List.mem_range.2 hp.lt, hp, g', hg', hreset⟩

end SurfaceFabric.Circuit
