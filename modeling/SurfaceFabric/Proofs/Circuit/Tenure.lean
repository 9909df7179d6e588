import Mathlib.Logic.Relation
import SurfaceFabric.Proofs.Circuit.Sharing

/-!
Tenures. A symbol is in use from a gate that puts it to use to the next reset of it, and may be put to use
again after that. Where gates begin only after those they share an operand with, the reset that ends a tenure
is done before the next tenure of the symbol begins.
-/

namespace SurfaceFabric.Circuit

variable {c : Circuit} {b m n r z : Nat} {u v : Symbol} {begun done : List Nat}

/-- A gate on a symbol that does not reset it. -/
def Employs (c : Circuit) (n : Nat) (u : Symbol) : Prop :=
  ∃ g, c.gate? n = some g ∧ g.isReset = false ∧ u ∈ g.operands

def Resets (c : Circuit) (n : Nat) (u : Symbol) : Prop :=
  ∃ g, c.gate? n = some g ∧ g.isReset = true ∧ u ∈ g.operands

instance (c : Circuit) (n : Nat) (u : Symbol) : Decidable (c.Employs n u) :=
  decidable_of_iff (∃ g ∈ c.gate? n, g.isReset = false ∧ u ∈ g.operands) Iff.rfl

instance (c : Circuit) (n : Nat) (u : Symbol) : Decidable (c.Resets n u) :=
  decidable_of_iff (∃ g ∈ c.gate? n, g.isReset = true ∧ u ∈ g.operands) Iff.rfl

theorem Employs.actsOn (h : c.Employs n u) : c.ActsOn n u := by
  obtain ⟨g, hg, -, hu⟩ := h
  exact ⟨g, hg, hu⟩

theorem Resets.actsOn (h : c.Resets n u) : c.ActsOn n u := by
  obtain ⟨g, hg, -, hu⟩ := h
  exact ⟨g, hg, hu⟩

theorem Employs.not_resets (h : c.Employs n u) : ¬c.Resets n v := by
  rintro ⟨g, hg, hreset, -⟩
  obtain ⟨g', hg', hemploys, -⟩ := h
  obtain rfl := Option.some.inj (hg.symm.trans hg')
  rw [hreset] at hemploys
  cases hemploys

/-- A reset has one operand, and it is a factory symbol. -/
theorem Built.reset_operands (h : Built c) {g : Gate} (hg : c.gate? n = some g) (hreset : g.isReset = true) :
    ∃ u, g.operands = [u] ∧ u.isFactory = true := by
  obtain ⟨hlength, hfactory⟩ := (objection?_eq_none_iff.1 (h.objection?_eq_none hg)).2.2.1 hreset
  obtain ⟨u, hu⟩ := List.length_eq_one_iff.1 hlength
  exact ⟨u, hu, hfactory u (by simp [hu])⟩

/-- What a gate resets: nothing, or its one operand. -/
theorem Built.resets_cases (h : Built c) (n : Nat) :
    (∀ g, c.gate? n = some g → g.isReset = false) ∧ (∀ u, ¬c.Resets n u) ∨
      ∃ g w, c.gate? n = some g ∧ g.isReset = true ∧ g.factoryOperand? = some w ∧
        ∀ u, c.Resets n u ↔ u = w := by
  by_cases hreset : ∃ g, c.gate? n = some g ∧ g.isReset = true
  · obtain ⟨g, hg, hreset⟩ := hreset
    obtain ⟨w, hw, hfactory⟩ := h.reset_operands hg hreset
    refine .inr ⟨g, w, hg, hreset, by simp [Gate.factoryOperand?, hw, hfactory], fun u => ?_⟩
    constructor
    · rintro ⟨g', hg', -, hu⟩
      obtain rfl := Option.some.inj (hg.symm.trans hg')
      rwa [hw, List.mem_singleton] at hu
    · rintro rfl
      exact ⟨g, hg, hreset, by simp [hw]⟩
  · refine .inl ⟨fun g hg => ?_, fun u ⟨g, hg, hg', _⟩ => hreset ⟨g, hg, hg'⟩⟩
    exact Bool.eq_false_of_not_eq_true fun hg' => hreset ⟨g, hg, hg'⟩

/-- A gate that puts a symbol to use: after any earlier use comes a reset. -/
structure Begins (c : Circuit) (u : Symbol) (b : Nat) : Prop where
  employs : c.Employs b u
  fresh : ∀ k < b, c.Employs k u → ∃ r, k < r ∧ r < b ∧ c.Resets r u

/-- The gate that began the use of a symbol in which a later gate falls. -/
structure Opens (c : Circuit) (u : Symbol) (b n : Nat) : Prop extends Begins c u b where
  le : b ≤ n
  unbroken : ∀ r, b ≤ r → r ≤ n → ¬c.Resets r u

/-- The reset that ends the use of a symbol in which a gate falls. -/
structure Closes (c : Circuit) (u : Symbol) (n r : Nat) : Prop where
  le : n ≤ r
  resets : c.Resets r u
  first : ∀ k, n ≤ k → k < r → ¬c.Resets k u

instance (c : Circuit) (u : Symbol) (b : Nat) : Decidable (c.Begins u b) :=
  decidable_of_iff (c.Employs b u ∧ ∀ k < b, c.Employs k u → ∃ r < b, k < r ∧ c.Resets r u) <| by
    constructor
    · rintro ⟨hemploys, hfresh⟩
      refine ⟨hemploys, fun k hk hearlier => ?_⟩
      obtain ⟨r, hlt, hafter, hreset⟩ := hfresh k hk hearlier
      exact ⟨r, hafter, hlt, hreset⟩
    · rintro ⟨hemploys, hfresh⟩
      refine ⟨hemploys, fun k hk hearlier => ?_⟩
      obtain ⟨r, hafter, hlt, hreset⟩ := hfresh k hk hearlier
      exact ⟨r, hlt, hafter, hreset⟩

instance (c : Circuit) (u : Symbol) (n r : Nat) : Decidable (c.Closes u n r) :=
  decidable_of_iff (n ≤ r ∧ c.Resets r u ∧ ∀ k < r, n ≤ k → ¬c.Resets k u)
    ⟨fun h => ⟨h.1, h.2.1, fun k hn hr => h.2.2 k hr hn⟩,
      fun h => ⟨h.le, h.resets, fun k hr hn => h.first k hn hr⟩⟩

theorem Begins.opens (h : c.Begins u b) : c.Opens u b b := by
  refine ⟨h, Nat.le_refl b, ?_⟩
  intro r hle hge
  rw [Nat.le_antisymm hge hle]
  exact h.employs.not_resets

theorem Closes.lt (h : c.Closes u n z) (hn : c.Employs n u) : n < z := by
  apply lt_of_le_of_ne h.le
  rintro rfl
  exact hn.not_resets h.resets

/-- All gates of a tenure have the same reset at its end. -/
theorem Opens.closes (h : c.Opens u b n) (hz : c.Closes u b z) : c.Closes u n z := by
  have hlt : n < z := by
    by_contra hge
    exact h.unbroken z hz.le (Nat.le_of_not_lt hge) hz.resets
  exact ⟨hlt.le, hz.resets, fun k hk => hz.first k (h.le.trans hk)⟩

/-- Every use of a symbol was begun by some gate. -/
theorem Employs.exists_opens (h : c.Employs n u) : ∃ b, c.Opens u b n := by
  induction n using Nat.strong_induction_on with
  | _ n ih =>
      by_cases hfresh : ∀ k < n, c.Employs k u → ∃ r, k < r ∧ r < n ∧ c.Resets r u
      · exact ⟨n, (Begins.mk h hfresh).opens⟩
      · push Not at hfresh
        obtain ⟨k, hlt, hemploys, hkept⟩ := hfresh
        obtain ⟨b, hopens⟩ := ih k hlt hemploys
        refine ⟨b, hopens.toBegins, hopens.le.trans hlt.le, ?_⟩
        intro r hle hge hreset
        rcases Nat.lt_or_ge k r with hafter | hbefore
        · obtain rfl | hbetween := Nat.eq_or_lt_of_le hge
          · exact h.not_resets hreset
          · exact hkept r hafter hbetween hreset
        · exact hopens.unbroken r hle hbefore hreset

def Follows (c : Circuit) : Nat → Nat → Prop := Relation.TransGen fun n p => p ∈ c.dependencies n

theorem Built.follows_of_shared (h : Built c) (hlt : m < n) (hm : c.ActsOn m u) (hn : c.ActsOn n u) :
    c.Follows n m := by
  induction n using Nat.strong_induction_on with
  | _ n ih =>
      obtain ⟨p, hp, hle, hacts⟩ := h.exists_dependency hlt hm hn
      obtain rfl | hlater := Nat.eq_or_lt_of_le hle
      · exact .single hp
      · exact .head hp (ih p (h.lt_of_mem_dependencies hp) hlater hacts)

/-- All earlier gates on the operands of a gate are done. -/
def Settled (c : Circuit) (done : List Nat) (n : Nat) : Prop :=
  ∀ m < n, ∀ u, c.ActsOn m u → c.ActsOn n u → m ∈ done

/-- No reset of a symbol that is done comes after a gate. -/
def Unbroken (c : Circuit) (done : List Nat) (u : Symbol) (n : Nat) : Prop :=
  ∀ r ∈ done, c.Resets r u → r < n

theorem Unbroken.finish (h : c.Unbroken done u n) (hz : ¬c.Resets z u) : c.Unbroken (done ++ [z]) u n := by
  intro r hr hreset
  rcases List.mem_append.1 hr with hr | hr
  · exact h r hr hreset
  · rw [List.mem_singleton.1 hr] at hreset
    exact absurd hreset hz

/-- An execution under way, in which each gate began when the earlier gates on its operands were done. -/
structure Pacing (c : Circuit) (begun done : List Nat) : Prop where
  done_begun : ∀ n ∈ done, n ∈ begun
  settled : ∀ n ∈ begun, c.Settled done n

namespace Pacing

/-- A gate yet to begin comes after all that have begun on its operands. -/
theorem lt_of_begun (h : c.Pacing begun done) (hn : n ∉ begun) (hnu : c.ActsOn n u) (hm : m ∈ begun)
    (hmu : c.ActsOn m u) : m < n := by
  rcases Nat.lt_trichotomy m n with hlt | rfl | hgt
  · exact hlt
  · exact absurd hm hn
  · exact absurd (h.done_begun n (h.settled m hm n hgt u hnu hmu)) hn

theorem unbroken (h : c.Pacing begun done) (hn : n ∉ begun) (hnu : c.ActsOn n u) : c.Unbroken done u n :=
  fun r hr hreset => h.lt_of_begun hn hnu (h.done_begun r hr) hreset.actsOn

theorem finish (h : c.Pacing begun done) (hz : z ∈ begun) : c.Pacing begun (done ++ [z]) := by
  refine ⟨?_, fun n hn m hlt u hm hu => List.mem_append_left _ (h.settled n hn m hlt u hm hu)⟩
  intro n hn
  rcases List.mem_append.1 hn with hn | hn
  · exact h.done_begun n hn
  · rw [List.mem_singleton.1 hn]
    exact hz

/-- A reset under way ends every tenure of its symbol that is not over. -/
theorem closes (h : c.Pacing begun done) (hz : z ∈ begun) (hrunning : z ∉ done) (hreset : c.Resets z u)
    (hn : n ∈ begun) (hnu : c.ActsOn n u) (hunbroken : c.Unbroken done u n) : c.Closes u n z := by
  refine ⟨?_, hreset, ?_⟩
  · by_contra hlt
    exact hrunning (h.settled n hn z (by omega) u hreset.actsOn hnu)
  · intro k hk hlt hreset'
    have hdone := h.settled z hz k hlt u hreset'.actsOn hreset.actsOn
    have hbefore := hunbroken k hdone hreset'
    omega

/-- A gate that begins falls in the tenure that is not over. -/
theorem opens (h : c.Pacing begun done) (hn : n ∉ begun) (hsettled : c.Settled done n)
    (hnu : c.Employs n u) (hb : b ∈ begun) (hbegins : c.Begins u b) (hunbroken : c.Unbroken done u b) :
    c.Opens u b n := by
  have hlt : b < n := h.lt_of_begun hn hnu.actsOn hb hbegins.employs.actsOn
  refine ⟨hbegins, hlt.le, ?_⟩
  intro r hle hge hreset
  obtain rfl | hbefore := Nat.eq_or_lt_of_le hge
  · exact hnu.not_resets hreset
  · have hdone := hsettled r hbefore u hreset.actsOn hnu.actsOn
    have := hunbroken r hdone hreset
    omega

/-- Once a later reset is done, so is the one that ends the tenure. -/
theorem exists_closes (h : c.Pacing begun done) (hr : r ∈ done) (hreset : c.Resets r u) (hle : n ≤ r) :
    ∃ z ∈ done, c.Closes u n z := by
  induction r using Nat.strong_induction_on with
  | _ r ih =>
      by_cases hfirst : ∀ k, n ≤ k → k < r → ¬c.Resets k u
      · exact ⟨r, hr, hle, hreset, hfirst⟩
      · push Not at hfirst
        obtain ⟨k, hk, hlt, hreset'⟩ := hfirst
        have hdone := h.settled r (h.done_begun r hr) k hlt u hreset'.actsOn hreset.actsOn
        exact ih k hlt hdone hreset' hk

end Pacing

/-- A symbol that was put to use and whose use is not over. -/
def InUse (c : Circuit) (begun done : List Nat) (u : Symbol) : Prop :=
  ∃ b ∈ begun, c.Begins u b ∧ c.Unbroken done u b

theorem InUse.append (h : c.InUse begun done u) (later : List Nat) : c.InUse (begun ++ later) done u := by
  obtain ⟨b, hb, hrest⟩ := h
  exact ⟨b, List.mem_append_left _ hb, hrest⟩

theorem InUse.finish (h : c.InUse begun done u) (hz : ¬c.Resets z u) : c.InUse begun (done ++ [z]) u := by
  obtain ⟨b, hb, hbegins, hunbroken⟩ := h
  exact ⟨b, hb, hbegins, hunbroken.finish hz⟩

theorem InUse.of_finish (h : c.InUse begun (done ++ [z]) u) : c.InUse begun done u := by
  obtain ⟨b, hb, hbegins, hunbroken⟩ := h
  exact ⟨b, hb, hbegins, fun r hr => hunbroken r (List.mem_append_left _ hr)⟩

/-- A gate that begins has its symbols in use, and puts to use those that were not. -/
theorem Pacing.inUse_cases (h : c.Pacing begun done) (hn : n ∉ begun) (hsettled : c.Settled done n)
    (hnu : c.Employs n u) : c.InUse begun done u ∨ c.Begins u n := by
  obtain ⟨b, hopens⟩ := hnu.exists_opens
  obtain rfl | hlt := Nat.eq_or_lt_of_le hopens.le
  · exact .inr hopens.toBegins
  · have hdone := hsettled b hlt u hopens.employs.actsOn hnu.actsOn
    refine .inl ⟨b, h.done_begun b hdone, hopens.toBegins, fun r hr hreset => ?_⟩
    by_contra hle
    have hbefore := h.unbroken hn hnu.actsOn r hr hreset
    exact hopens.unbroken r (Nat.le_of_not_lt hle) hbefore.le hreset

/-- After a reset its symbol is not in use. -/
theorem Pacing.not_inUse (h : c.Pacing begun done) (hrunning : z ∉ done) (hreset : c.Resets z u) :
    ¬c.InUse begun (done ++ [z]) u := by
  rintro ⟨b, hb, hbegins, hunbroken⟩
  have hlt := hunbroken z (List.mem_append_right _ (List.mem_singleton_self z)) hreset
  exact hrunning (h.settled b hb z hlt u hreset.actsOn hbegins.employs.actsOn)

end SurfaceFabric.Circuit
