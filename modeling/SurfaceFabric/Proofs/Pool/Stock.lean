import SurfaceFabric.Proofs.Pool.Protocol

/-!
How many factories of a template a pool has, and how many of them are idle. Here a handle may stand for
several factories of one template. A symbol is then bound to the first of these, whichever was reserved for
it, so a factory may be lost for good, but none is gained: binding takes one from those that are idle, and
giving back adds one at most.
-/

namespace SurfaceFabric.Pool

variable {p q : Pool} {i : Nat} {slot slot' : PoolSlot} {s u : Symbol} {k : Ticket} {template : String}

def stock (p : Pool) (template : String) : Nat := p.slots.countP fun slot => slot.template == template

def idle (p : Pool) (template : String) : Nat := p.slots.countP (isOffered template)

def Uniform (p : Pool) : Prop :=
  ∀ a ∈ p.slots, ∀ b ∈ p.slots, a.handle = b.handle → a.template = b.template

instance : DecidablePred Uniform := fun p => inferInstanceAs
  (Decidable (∀ a ∈ p.slots, ∀ b ∈ p.slots, a.handle = b.handle → a.template = b.template))

theorem Distinct.uniform (h : p.Distinct) : p.Uniform := by
  intro a ha b hb heq
  rw [List.inj_on_of_nodup_map h ha hb heq]

theorem idle_le_stock (p : Pool) (template : String) : p.idle template ≤ p.stock template := by
  apply List.countP_mono_left
  intro slot _ hoffered
  exact (Bool.and_eq_true_iff.1 hoffered).1

theorem idle_set (hi : p.slots[i]? = some slot) (slot' : PoolSlot) (template : String) :
    idle ⟨p.slots.set i slot'⟩ template + (if isOffered template slot then 1 else 0) =
      p.idle template + if isOffered template slot' then 1 else 0 := by
  obtain ⟨hlt, rfl⟩ := List.getElem?_eq_some_iff.1 hi
  have hpos (hoffered : isOffered template p.slots[i] = true) : 0 < p.idle template :=
    List.countP_pos_iff.2 ⟨_, List.getElem_mem hlt, hoffered⟩
  rw [idle, List.countP_set hlt]
  show p.idle template - _ + _ + _ = _
  split
  · next hoffered =>
      have := hpos hoffered
      omega
  · omega

/-- A pool whose bound factories are of the templates of their symbols, one for each symbol. -/
structure Lent (p : Pool) : Prop where
  uniform : p.Uniform
  sole : ∀ (i j : Nat) (a b : PoolSlot) (s : Symbol), p.slots[i]? = some a → p.slots[j]? = some b →
    a.occupancy = .bound s → b.occupancy = .bound s → i = j
  template : ∀ slot ∈ p.slots, ∀ s, slot.occupancy = .bound s → s.template? = some slot.template

namespace Lent

theorem of_free (huniform : p.Uniform) (hfree : ∀ slot ∈ p.slots, slot.occupancy = .free) : p.Lent := by
  refine ⟨huniform, ?_, ?_⟩
  · intro i j a b s ha _ hbound
    rw [hfree a (List.mem_of_getElem? ha)] at hbound
    cases hbound
  · intro slot hslot s hbound
    rw [hfree slot hslot] at hbound
    cases hbound

/-- Changing the holder of one slot to a symbol that is bound to no other. -/
theorem set (h : p.Lent) (hi : p.slots[i]? = some slot) (hhandle : slot'.handle = slot.handle)
    (htemplate : slot'.template = slot.template)
    (hholder : ∀ s, slot'.occupancy = .bound s → s.template? = some slot.template ∧
      ∀ other ∈ p.slots, other.occupancy ≠ .bound s) : Lent ⟨p.slots.set i slot'⟩ := by
  have hslot := List.mem_of_getElem? hi
  refine ⟨?_, ?_, ?_⟩
  · intro a ha b hb heq
    obtain holda | rfl := List.mem_or_eq_of_mem_set ha
    · obtain holdb | rfl := List.mem_or_eq_of_mem_set hb
      · exact h.uniform a holda b holdb heq
      · rw [htemplate]
        exact h.uniform a holda slot hslot (heq.trans hhandle)
    · obtain holdb | rfl := List.mem_or_eq_of_mem_set hb
      · rw [htemplate]
        exact h.uniform slot hslot b holdb (hhandle.symm.trans heq)
      · rfl
  · intro j l a b s ha hb hbound hbound'
    obtain ⟨rfl, rfl⟩ | ⟨-, holda⟩ := getElem?_set_cases ha
    · obtain ⟨rfl, -⟩ | ⟨-, holdb⟩ := getElem?_set_cases hb
      · rfl
      · exact absurd hbound' ((hholder s hbound).2 b (List.mem_of_getElem? holdb))
    · obtain ⟨rfl, rfl⟩ | ⟨-, holdb⟩ := getElem?_set_cases hb
      · exact absurd hbound ((hholder s hbound').2 a (List.mem_of_getElem? holda))
      · exact h.sole j l a b s holda holdb hbound hbound'
  · intro a ha s hbound
    obtain ha | rfl := List.mem_or_eq_of_mem_set ha
    · exact h.template a ha s hbound
    · rw [htemplate]
      exact (hholder s hbound).1

end Lent

/-- What taking a factory does to the slots: one that is free is reserved, and the first with its handle is
bound. -/
theorem commit_reserve? (h : p.reserve? s = some (k, q)) :
    ∃ (i j : Nat) (slot slot' : PoolSlot), p.Suits i slot s ∧
      (p.slots.set i { slot with occupancy := .reserved s })[j]? = some slot' ∧
      slot'.handle = slot.handle ∧ q.commit k =
        ⟨(p.slots.set i { slot with occupancy := .reserved s }).set j { slot' with occupancy := .bound s }⟩ := by
  obtain ⟨i, slot, hsuits, heq⟩ := suits_of_reserve? h
  obtain ⟨rfl, rfl⟩ := Prod.mk.inj heq
  obtain ⟨hlt, -⟩ := List.getElem?_eq_some_iff.1 hsuits.get
  obtain ⟨hnone, -⟩ | ⟨j, slot', hj, hhandle, heq⟩ := updateFirst_cases
    (fun other => other.handle == slot.handle) (fun other => { other with occupancy := .bound s })
    (p.slots.set i { slot with occupancy := .reserved s })
  · have hmiss := hnone _ (List.mem_set hlt _)
    simp at hmiss
  · exact ⟨i, j, slot, slot', hsuits, hj, by simpa using hhandle, congrArg Pool.mk heq⟩

structure Takes (p : Pool) (s : Symbol) (q : Pool) : Prop where
  lent : q.Lent
  idle_lt : ∀ template, s.template? = some template → q.idle template < p.idle template
  idle_le : ∀ template, q.idle template ≤ p.idle template
  bound : ∀ u, (∃ slot ∈ q.slots, slot.occupancy = .bound u) →
    u = s ∨ ∃ slot ∈ p.slots, slot.occupancy = .bound u

theorem Lent.takes (h : p.Lent) (hreserve : p.reserve? s = some (k, q)) : p.Takes s (q.commit k) := by
  obtain ⟨i, j, slot, slot', hsuits, hj, hhandle, heq⟩ := commit_reserve? hreserve
  have hslot := List.mem_of_getElem? hsuits.get
  have hunheld (other : PoolSlot) (hother : other ∈ p.slots) : other.occupancy ≠ .bound s := by
    intro hbound
    have hheld := isHeld_eq_false_iff.1 hsuits.not_held other hother
    simp [hbound, Occupancy.heldBy] at hheld
  let reserved : PoolSlot := { slot with occupancy := .reserved s }
  have hreserved : Lent ⟨p.slots.set i reserved⟩ := by
    refine h.set hsuits.get rfl rfl ?_
    intro u hbound
    cases hbound
  have hunheld' (other : PoolSlot) (hother : other ∈ p.slots.set i reserved) : other.occupancy ≠ .bound s := by
    obtain hold | rfl := List.mem_or_eq_of_mem_set hother
    · exact hunheld other hold
    · simp [reserved]
  have htemplate : slot'.template = slot.template := by
    obtain ⟨hlt, -⟩ := List.getElem?_eq_some_iff.1 hsuits.get
    exact hreserved.uniform slot' (List.mem_of_getElem? hj) reserved (List.mem_set hlt _) hhandle
  have hidle (template : String) : idle (q.commit k) template ≤ idle ⟨p.slots.set i reserved⟩ template := by
    have hset := idle_set (p := ⟨p.slots.set i reserved⟩) hj { slot' with occupancy := .bound s } template
    have hbound : isOffered template { slot' with occupancy := .bound s } = false := by simp [isOffered]
    rw [hbound, ← heq] at hset
    simp only [Bool.false_eq_true, if_false] at hset
    omega
  have hidle' (template : String) : idle ⟨p.slots.set i reserved⟩ template +
      (if isOffered template slot then 1 else 0) = p.idle template := by
    have hset := idle_set hsuits.get reserved template
    have hbusy : isOffered template reserved = false := by simp [isOffered, reserved]
    rw [hbusy] at hset
    simpa using hset
  refine ⟨?_, ?_, ?_, ?_⟩
  · rw [heq]
    refine hreserved.set hj rfl rfl ?_
    intro u hbound
    obtain rfl := Occupancy.bound.inj hbound
    rw [htemplate]
    exact ⟨hsuits.template, hunheld'⟩
  · intro template ht
    have hoffered : isOffered template slot = true := by
      obtain rfl := Option.some.inj (hsuits.template.symm.trans ht)
      simp [isOffered, hsuits.free]
    have hbefore := hidle' template
    rw [if_pos hoffered] at hbefore
    have := hidle template
    omega
  · intro template
    have := hidle template
    have := hidle' template
    omega
  · rintro u ⟨other, hother, hbound⟩
    rw [heq] at hother
    obtain hother | rfl := List.mem_or_eq_of_mem_set hother
    · obtain hold | rfl := List.mem_or_eq_of_mem_set hother
      · exact .inr ⟨other, hold, hbound⟩
      · cases hbound
    · exact .inl (Occupancy.bound.inj hbound).symm

structure Returns (p : Pool) (s : Symbol) (q : Pool) : Prop where
  lent : q.Lent
  idle_le : ∀ template, q.idle template ≤ p.idle template + if s.template? = some template then 1 else 0
  bound : ∀ u, (∃ slot ∈ q.slots, slot.occupancy = .bound u) →
    u ≠ s ∧ ∃ slot ∈ p.slots, slot.occupancy = .bound u

theorem Lent.free_cases (h : p.Lent) (s : Symbol) (tick : Nat) :
    p.free s tick = p ∧ (∀ slot ∈ p.slots, slot.occupancy ≠ .bound s) ∨
      (∃ slot ∈ p.slots, slot.occupancy = .bound s) ∧ p.Returns s (p.free s tick) := by
  obtain ⟨hnone, heq⟩ | ⟨i, slot, hi, hbound, heq⟩ := Pool.free_cases p s tick
  · exact .inl ⟨heq, hnone⟩
  · have hslot := List.mem_of_getElem? hi
    refine .inr ⟨⟨slot, hslot, hbound⟩, ?_, ?_, ?_⟩
    · rw [heq]
      refine h.set hi rfl rfl ?_
      intro u hu
      cases hu
    · intro template
      have hset := idle_set hi { slot with occupancy := .free, idleSince := tick } template
      have hbusy : isOffered template slot = false := by simp [isOffered, hbound]
      rw [hbusy, ← heq] at hset
      simp only [Bool.false_eq_true, if_false, Nat.add_zero] at hset
      rw [hset, h.template slot hslot s hbound]
      apply Nat.add_le_add_left
      simp only [isOffered, Option.some.injEq, beq_self_eq_true, Bool.and_true, beq_iff_eq]
      exact Nat.le_refl _
    · rintro u ⟨other, hother, hu⟩
      rw [heq] at hother
      obtain ⟨j, hj⟩ := List.mem_iff_getElem?.1 hother
      obtain ⟨-, rfl⟩ | ⟨hne, hj⟩ := getElem?_set_cases hj
      · cases hu
      refine ⟨?_, other, List.mem_of_getElem? hj, hu⟩
      rintro rfl
      exact hne (h.sole j i other slot u hj hi hu hbound)

end SurfaceFabric.Pool
