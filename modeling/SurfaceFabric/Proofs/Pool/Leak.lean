import SurfaceFabric.Proofs.Pool.Protocol

/-!
Reservations that are lost. Where a handle stands for several factories, a ticket is released at the first of
them, whichever was reserved, so the reservation of a later one stays for good. The first factory of a handle
is always given back. A choice that fell on one of these is therefore made again, unless its symbol is the one
that lost a reservation.
-/

namespace SurfaceFabric

theorem map_find?_of_forall₂ {α β : Type} {r : α → α → Prop} {t : α → Bool} {v : α → β} {l l' : List α}
    (h : List.Forall₂ r l l') (ht : ∀ a b, r a b → t b = t a) (hv : ∀ a b, r a b → t a = true → v b = v a) :
    (l'.find? t).map v = (l.find? t).map v := by
  induction h with
  | nil => rfl
  | @cons a b _ _ hab _ ih =>
      rw [List.find?_cons, List.find?_cons, ht a b hab]
      split
      · next ha => exact congrArg some (hv a b hab ha)
      · exact ih

def PoolSlot.SetAside (a b : PoolSlot) : Prop :=
  b = a ∨ a.occupancy = .free ∧ ∃ s, b = { a with occupancy := .reserved s }

theorem PoolSlot.SetAside.handle_eq {a b : PoolSlot} (h : a.SetAside b) : b.handle = a.handle := by
  obtain rfl | ⟨-, s, rfl⟩ := h <;> rfl

theorem PoolSlot.SetAside.entrance_eq {a b : PoolSlot} (h : a.SetAside b) : b.entrance = a.entrance := by
  obtain rfl | ⟨-, s, rfl⟩ := h <;> rfl

theorem PoolSlot.SetAside.eq_of_free {a b : PoolSlot} (h : a.SetAside b) (hb : b.occupancy = .free) :
    b = a := by
  obtain rfl | ⟨-, s, rfl⟩ := h
  · rfl
  · cases hb

namespace Pool

/-- A slot that no earlier one shares its handle with. -/
def IsPrimary (p : Pool) (i : Nat) : Prop :=
  ∀ j a b, j < i → p.slots[j]? = some a → p.slots[i]? = some b → a.handle ≠ b.handle

/-- A pool in which some free slots are reserved, each for a symbol that may claim it. -/
structure SetsAside (claim : Nat → Symbol → Prop) (p q : Pool) : Prop where
  length_eq : q.slots.length = p.slots.length
  slot : ∀ i a, p.slots[i]? = some a → q.slots[i]? = some a ∨
    a.occupancy = .free ∧ ∃ s, claim i s ∧ q.slots[i]? = some { a with occupancy := .reserved s }

/-- Slots are lost only where their handle stands for an earlier one too. -/
abbrev Leaks (p q : Pool) : Prop := SetsAside (fun i _ => ¬p.IsPrimary i) p q

variable {claim claim' : Nat → Symbol → Prop} {p q r : Pool} {i : Nat} {a b slot : PoolSlot} {s : Symbol}
  {k : Ticket} {tickets : List Ticket}

theorem isPrimary_congr (h : q.slots.map PoolSlot.handle = p.slots.map PoolSlot.handle) (i : Nat) :
    q.IsPrimary i ↔ p.IsPrimary i := by
  have hdir {p q : Pool} (h : q.slots.map PoolSlot.handle = p.slots.map PoolSlot.handle)
      (hq : q.IsPrimary i) : p.IsPrimary i := by
    have hslot (j : Nat) (a : PoolSlot) (ha : p.slots[j]? = some a) :
        ∃ a', q.slots[j]? = some a' ∧ a'.handle = a.handle := by
      have hj := congrArg (·[j]?) h
      simp only [List.getElem?_map, ha, Option.map_some] at hj
      exact Option.map_eq_some_iff.1 hj
    intro j a b hj ha hb
    obtain ⟨a', ha', haa⟩ := hslot j a ha
    obtain ⟨b', hb', hbb⟩ := hslot i b hb
    rw [← haa, ← hbb]
    exact hq j a' b' hj ha' hb'
  exact ⟨hdir h, hdir h.symm⟩

namespace SetsAside

theorem refl (claim : Nat → Symbol → Prop) (p : Pool) : SetsAside claim p p :=
  ⟨rfl, fun _ _ hi => .inl hi⟩

theorem mono (h : SetsAside claim p q) (hclaim : ∀ i s, claim i s → claim' i s) : SetsAside claim' p q := by
  refine ⟨h.length_eq, fun i a hi => ?_⟩
  obtain hsame | ⟨hfree, s, hs, hi'⟩ := h.slot i a hi
  · exact .inl hsame
  · exact .inr ⟨hfree, s, hclaim i s hs, hi'⟩

theorem trans (h : SetsAside claim p q) (h' : SetsAside claim q r) : SetsAside claim p r := by
  refine ⟨h'.length_eq.trans h.length_eq, fun i a hi => ?_⟩
  obtain hsame | ⟨hfree, s, hs, hi'⟩ := h.slot i a hi
  · exact h'.slot i a hsame
  · obtain hkept | ⟨hfree', -⟩ := h'.slot i _ hi'
    · exact .inr ⟨hfree, s, hs, hkept⟩
    · cases hfree'

theorem exists_slot (h : SetsAside claim p q) (hi : q.slots[i]? = some b) :
    ∃ a, p.slots[i]? = some a ∧ a.SetAside b := by
  obtain ⟨hlt, -⟩ := List.getElem?_eq_some_iff.1 hi
  have ha := List.getElem?_eq_getElem (h.length_eq ▸ hlt)
  refine ⟨_, ha, ?_⟩
  obtain hsame | ⟨hfree, s, -, hi'⟩ := h.slot i _ ha
  · exact .inl (Option.some.inj (hi.symm.trans hsame))
  · exact .inr ⟨hfree, s, Option.some.inj (hi.symm.trans hi')⟩

theorem forall₂ (h : SetsAside claim p q) : List.Forall₂ PoolSlot.SetAside p.slots q.slots := by
  refine List.forall₂_iff_get.2 ⟨h.length_eq.symm, fun i hp hq => ?_⟩
  obtain ⟨a, ha, hab⟩ := h.exists_slot (List.getElem?_eq_getElem hq)
  obtain rfl : p.slots[i] = a := Option.some.inj ((List.getElem?_eq_getElem hp).symm.trans ha)
  exact hab

theorem binding?_eq (h : SetsAside claim p q) (s : Symbol) : q.binding? s = p.binding? s := by
  have hmap : (q.binding? s).map id = (p.binding? s).map id := by
    refine map_find?_of_forall₂ h.forall₂ ?_ ?_
    · rintro a b (rfl | ⟨hfree, u, rfl⟩)
      · rfl
      · simp [hfree]
    · rintro a b (rfl | ⟨hfree, u, rfl⟩) hbound
      · rfl
      · simp [hfree] at hbound
  simpa only [Option.map_id, id_eq] using hmap

theorem entrance?_eq (h : SetsAside claim p q) (handle : Nat) : q.entrance? handle = p.entrance? handle :=
  map_find?_of_forall₂ h.forall₂ (fun _ _ hab => by rw [hab.handle_eq]) fun _ _ hab _ => hab.entrance_eq

theorem isHeld (h : SetsAside claim p q) (hs : p.isHeld s = true) : q.isHeld s = true := by
  obtain ⟨a, ha, hheld⟩ := List.any_eq_true.1 hs
  obtain ⟨i, hi⟩ := List.mem_iff_getElem?.1 ha
  obtain hsame | ⟨hfree, -⟩ := h.slot i a hi
  · exact List.any_eq_true.2 ⟨a, List.mem_of_getElem? hsame, hheld⟩
  · rw [hfree] at hheld
    cases hheld

theorem isPrimary_iff (h : SetsAside claim p q) (i : Nat) : q.IsPrimary i ↔ p.IsPrimary i := by
  refine isPrimary_congr (List.ext_getElem? fun j => ?_) i
  rw [List.getElem?_map, List.getElem?_map]
  cases ha : p.slots[j]? with
  | none =>
      rw [List.getElem?_eq_none_iff] at ha
      rw [List.getElem?_eq_none (h.length_eq ▸ ha)]
  | some a =>
      obtain hsame | ⟨-, s, -, hj⟩ := h.slot j a ha
      · rw [hsame]
      · rw [hj]
        rfl

end SetsAside

/-! ### Choices -/

/-- What is preferred is preferable to all that come before it. -/
theorem preferred?_first {test : PoolSlot → Bool} {i j m : Nat} {slots : List PoolSlot}
    (h : preferred? test i slots = some (j, a)) (hm : i + m < j) (hb : slots[m]? = some b)
    (htest : test b = true) : preferable a b = true := by
  induction slots generalizing i m with
  | nil => cases h
  | cons first rest ih =>
      have hlater (h : preferred? test (i + 1) rest = some (j, a)) (hm : m ≠ 0) : preferable a b = true := by
        obtain ⟨m', rfl⟩ := Nat.exists_eq_succ_of_ne_zero hm
        exact ih (m := m') h (by omega) (by simpa using hb)
      rw [preferred?] at h
      split at h
      · next hfirst =>
          refine hlater h ?_
          rintro rfl
          obtain rfl : first = b := by simpa using hb
          rw [htest] at hfirst
          cases hfirst
      · cases h
        omega
      · next hrest =>
          split at h
          · next hpreferable =>
              cases h
              by_cases hzero : m = 0
              · subst hzero
                obtain rfl : first = b := by simpa using hb
                exact hpreferable
              · exact hlater hrest hzero
          · cases h
            omega

/-- What is preferred passes the test, is preferable to all before it, and nothing is preferable to it. -/
theorem preferred?_eq_some_iff {test : PoolSlot → Bool} {slots : List PoolSlot} :
    preferred? test 0 slots = some (i, a) ↔ slots[i]? = some a ∧ test a = true ∧
      ∀ j b, slots[j]? = some b → test b = true →
        preferable b a = false ∧ (j < i → preferable a b = true) := by
  have hspec {i : Nat} {a : PoolSlot} (h : preferred? test 0 slots = some (i, a)) :
      slots[i]? = some a ∧ test a = true ∧ ∀ j b, slots[j]? = some b → test b = true →
        preferable b a = false ∧ (j < i → preferable a b = true) := by
    obtain ⟨-, hget, htest⟩ := preferred?_eq_some h
    refine ⟨hget, htest, fun j b hj hb => ⟨?_, fun hlt => ?_⟩⟩
    · exact preferred?_best h b (List.mem_of_getElem? hj) hb
    · exact preferred?_first h (by omega) hj hb
  refine ⟨hspec, fun ⟨hget, htest, hbest⟩ => ?_⟩
  cases hpreferred : preferred? test 0 slots with
  | none =>
      have hnone := preferred?_eq_none_iff.1 hpreferred a (List.mem_of_getElem? hget)
      rw [htest] at hnone
      cases hnone
  | some found =>
      obtain ⟨j, b⟩ := found
      obtain ⟨hj, hb, hbest'⟩ := hspec hpreferred
      obtain ⟨hnot, hbefore⟩ := hbest j b hj hb
      obtain ⟨hnot', hbefore'⟩ := hbest' i a hget htest
      rcases Nat.lt_trichotomy i j with hlt | rfl | hlt
      · rw [hbefore' hlt] at hnot
        cases hnot
      · rw [hget] at hj
        cases hj
        rfl
      · rw [hbefore hlt] at hnot'
        cases hnot'

theorem offered?_eq_some_iff {handle : Nat} {template : String} {slots : List PoolSlot} :
    offered? handle template slots = some (i, a) ↔ slots[i]? = some a ∧
      (a.handle == handle && isOffered template a) = true ∧
      ∀ j b, j < i → slots[j]? = some b → (b.handle == handle && isOffered template b) = false := by
  rw [offered?, Option.bind_eq_some_iff]
  constructor
  · rintro ⟨j, hfind, hj⟩
    obtain ⟨b, hb, heq⟩ := Option.map_eq_some_iff.1 hj
    cases heq
    obtain ⟨hlt, htest, hbefore⟩ := List.findIdx?_eq_some_iff_getElem.1 hfind
    obtain ⟨hlt', rfl⟩ := List.getElem?_eq_some_iff.1 hb
    refine ⟨hb, htest, fun j b hj hget => ?_⟩
    obtain ⟨hlt'', rfl⟩ := List.getElem?_eq_some_iff.1 hget
    simpa using hbefore j hj
  · rintro ⟨hget, htest, hbefore⟩
    obtain ⟨hlt, rfl⟩ := List.getElem?_eq_some_iff.1 hget
    refine ⟨i, List.findIdx?_eq_some_iff_getElem.2 ⟨hlt, htest, fun j hj => ?_⟩, by rw [hget]; rfl⟩
    simpa using hbefore j _ hj (List.getElem?_eq_getElem (Nat.lt_trans hj hlt))

/-- The slot that a request is given: one of the handle that is wanted, if that is offered, or else the
preferred one. -/
def choose? (wanted : Option Nat) (template : String) (slots : List PoolSlot) : Option (Nat × PoolSlot) :=
  (wanted.bind fun handle => offered? handle template slots).or (preferred? (isOffered template) 0 slots)

theorem choose?_isOffered {wanted : Option Nat} {template : String} {slots : List PoolSlot}
    (h : choose? wanted template slots = some (i, a)) : slots[i]? = some a ∧ isOffered template a = true := by
  rcases Option.or_eq_some_iff.1 h with h | ⟨-, h⟩
  · obtain ⟨handle, -, h⟩ := Option.bind_eq_some_iff.1 h
    obtain ⟨hget, htest, -⟩ := offered?_eq_some_iff.1 h
    exact ⟨hget, (Bool.and_eq_true_iff.1 htest).2⟩
  · obtain ⟨hget, htest, -⟩ := preferred?_eq_some_iff.1 h
    exact ⟨hget, htest⟩

namespace SetsAside

variable {template : String} {wanted : Option Nat}

/-- What is offered still was offered before. -/
theorem isOffered_before (h : SetsAside claim p q) (hi : q.slots[i]? = some b)
    (hb : isOffered template b = true) : p.slots[i]? = some b := by
  obtain ⟨a, ha, hab⟩ := h.exists_slot hi
  rw [hab.eq_of_free (free_of_isOffered hb)]
  exact ha

theorem offered?_eq_none (h : SetsAside claim p q) {handle : Nat}
    (hp : offered? handle template p.slots = none) : offered? handle template q.slots = none := by
  refine offered?_eq_none_iff.2 fun b hb => ?_
  by_contra htest
  rw [Bool.not_eq_false] at htest
  obtain ⟨i, hi⟩ := List.mem_iff_getElem?.1 hb
  have hbefore := h.isOffered_before hi (Bool.and_eq_true_iff.1 htest).2
  rw [offered?_eq_none_iff.1 hp b (List.mem_of_getElem? hbefore)] at htest
  cases htest

theorem preferred?_eq_none (h : SetsAside claim p q) (hp : preferred? (isOffered template) 0 p.slots = none) :
    preferred? (isOffered template) 0 q.slots = none := by
  refine preferred?_eq_none_iff.2 fun b hb => ?_
  by_contra htest
  rw [Bool.not_eq_false] at htest
  obtain ⟨i, hi⟩ := List.mem_iff_getElem?.1 hb
  have hbefore := h.isOffered_before hi htest
  rw [preferred?_eq_none_iff.1 hp b (List.mem_of_getElem? hbefore)] at htest
  cases htest

theorem choose?_eq_none (h : SetsAside claim p q) (hp : choose? wanted template p.slots = none) :
    choose? wanted template q.slots = none := by
  obtain ⟨hwanted, hpreferred⟩ := Option.or_eq_none_iff.1 hp
  refine Option.or_eq_none_iff.2 ⟨?_, h.preferred?_eq_none hpreferred⟩
  cases wanted with
  | none => rfl
  | some handle => exact h.offered?_eq_none hwanted

/-- A choice stays the same as long as it is there. -/
theorem choose?_eq_some (h : SetsAside claim p q) (hp : choose? wanted template p.slots = some (i, a))
    (hq : q.slots[i]? = some a) : choose? wanted template q.slots = some (i, a) := by
  rcases Option.or_eq_some_iff.1 hp with hp | ⟨hwanted, hp⟩
  · obtain ⟨handle, rfl, hp⟩ := Option.bind_eq_some_iff.1 hp
    obtain ⟨-, htest, hbefore⟩ := offered?_eq_some_iff.1 hp
    have hoffered : offered? handle template q.slots = some (i, a) := by
      refine offered?_eq_some_iff.2 ⟨hq, htest, fun j b hj hb => ?_⟩
      by_contra hpass
      rw [Bool.not_eq_false] at hpass
      rw [hbefore j b hj (h.isOffered_before hb (Bool.and_eq_true_iff.1 hpass).2)] at hpass
      cases hpass
    exact Option.or_eq_some_iff.2 (.inl hoffered)
  · obtain ⟨-, htest, hbest⟩ := preferred?_eq_some_iff.1 hp
    have hpreferred : preferred? (isOffered template) 0 q.slots = some (i, a) := by
      refine preferred?_eq_some_iff.2 ⟨hq, htest, fun j b hj hb => ?_⟩
      exact hbest j b (h.isOffered_before hj hb) hb
    refine Option.or_eq_some_iff.2 (.inr ⟨?_, hpreferred⟩)
    cases wanted with
    | none => rfl
    | some handle => exact h.offered?_eq_none hwanted

end SetsAside

/-! ### Reservations and releases -/

/-- A pool in which the slots of some tickets are reserved. None of their symbols held a slot before. -/
structure Drawn (p : Pool) (tickets : List Ticket) (q : Pool) : Prop where
  setsAside : SetsAside (fun i s => ∃ a, p.slots[i]? = some a ∧ ⟨a.handle, s⟩ ∈ tickets) p q
  not_held : ∀ k ∈ tickets, p.isHeld k.symbol = false

theorem Drawn.refl (p : Pool) : Drawn p [] p := ⟨.refl _ p, by simp⟩

theorem Suits.setsAside (h : p.Suits i slot s) :
    SetsAside (fun j u => j = i ∧ u = s) p ⟨p.slots.set i { slot with occupancy := .reserved s }⟩ := by
  refine ⟨List.length_set, fun j a ha => ?_⟩
  show (p.slots.set i _)[j]? = some a ∨ _
  by_cases hij : i = j
  · subst hij
    obtain rfl : slot = a := Option.some.inj (h.get.symm.trans ha)
    refine .inr ⟨h.free, s, ⟨rfl, rfl⟩, ?_⟩
    exact List.getElem?_set_self (List.getElem?_eq_some_iff.1 ha).1
  · exact .inl (by rw [List.getElem?_set_ne hij, ha])

theorem SetsAside.set (h : SetsAside claim p q) (i : Nat) (b : PoolSlot) :
    SetsAside claim ⟨p.slots.set i b⟩ ⟨q.slots.set i b⟩ := by
  constructor
  · show (q.slots.set i b).length = (p.slots.set i b).length
    rw [List.length_set, List.length_set, h.length_eq]
  · intro j a hj
    change (p.slots.set i b)[j]? = some a at hj
    show (q.slots.set i b)[j]? = some a ∨ a.occupancy = .free ∧ ∃ s, claim j s ∧
      (q.slots.set i b)[j]? = some { a with occupancy := .reserved s }
    by_cases hij : i = j
    · left
      rw [List.getElem?_set, if_pos hij, h.length_eq, ← hj, List.getElem?_set, if_pos hij]
    · rw [List.getElem?_set_ne hij] at hj ⊢
      exact h.slot j a hj

namespace Leaks

theorem trans (h : p.Leaks q) (h' : q.Leaks r) : p.Leaks r :=
  SetsAside.trans h (h'.mono fun i _ hi => (h.isPrimary_iff i).not.1 hi)

/-- The first slot of a handle is never lost. -/
theorem getElem?_eq (h : p.Leaks q) (hi : p.slots[i]? = some a) (hprimary : p.IsPrimary i) :
    q.slots[i]? = some a := by
  obtain hsame | ⟨-, s, hnot, -⟩ := h.slot i a hi
  · exact hsame
  · exact absurd hprimary hnot

/-- A slot that is still there is reserved in both pools. -/
theorem reserve (h : p.Leaks q) (hsuits : p.Suits i slot s) :
    Leaks ⟨p.slots.set i { slot with occupancy := .reserved s }⟩
      ⟨q.slots.set i { slot with occupancy := .reserved s }⟩ := by
  refine (SetsAside.set h i _).mono fun j _ hj hprimary => hj ?_
  exact (hsuits.setsAside.isPrimary_iff j).1 hprimary

end Leaks

theorem Drawn.reserve (h : Drawn p tickets q) (hsuits : q.Suits i slot s)
    (hreserve : q.reserveSlot i slot s = (k, r)) : Drawn p (tickets ++ [k]) r := by
  obtain ⟨rfl, rfl⟩ := Prod.mk.inj hreserve
  constructor
  · refine (h.setsAside.mono ?_).trans (hsuits.setsAside.mono ?_)
    · rintro j u ⟨a, ha, hmem⟩
      exact ⟨a, ha, List.mem_append_left _ hmem⟩
    · rintro j u ⟨rfl, rfl⟩
      obtain ⟨a, ha, hab⟩ := h.setsAside.exists_slot hsuits.get
      exact ⟨a, ha, List.mem_append_right _ (by simp [hab.handle_eq])⟩
  · intro k' hk'
    rcases List.mem_append.1 hk' with hk' | hk'
    · exact h.not_held k' hk'
    · rw [List.mem_singleton.1 hk']
      by_contra hheld
      rw [Bool.not_eq_false] at hheld
      have hnot := hsuits.not_held
      rw [h.setsAside.isHeld hheld] at hnot
      cases hnot

/-- A release frees a slot if that is the first of its handle and reserved for the symbol of the ticket. -/
theorem getElem?_release (k : Ticket) (ha : q.slots[i]? = some a) :
    (q.release k).slots[i]? = some a ∧
        ¬(q.IsPrimary i ∧ a.handle = k.handle ∧ a.occupancy = .reserved k.symbol) ∨
      (q.release k).slots[i]? = some { a with occupancy := .free } ∧
        q.IsPrimary i ∧ a.occupancy = .reserved k.symbol := by
  obtain ⟨hnone, heq⟩ | ⟨j, b, hj, hb, hfirst, heq⟩ := updateFirst_first
    (fun slot : PoolSlot => slot.handle == k.handle)
    (fun slot => if slot.occupancy = .reserved k.symbol then { slot with occupancy := .free } else slot)
    q.slots
  · refine .inl ⟨(congrArg (·[i]?) heq).trans ha, fun ⟨_, hhandle, _⟩ => ?_⟩
    have hother := hnone a (List.mem_of_getElem? ha)
    simp [hhandle] at hother
  · have hslots : (q.release k).slots[i]? = (q.slots.set j
        (if b.occupancy = .reserved k.symbol then { b with occupancy := .free } else b))[i]? :=
      congrArg (·[i]?) heq
    rw [hslots]
    rcases Nat.lt_trichotomy i j with hlt | rfl | hlt
    · refine .inl ⟨by rw [List.getElem?_set_ne (Nat.ne_of_gt hlt), ha], fun ⟨_, hhandle, _⟩ => ?_⟩
      have hother := hfirst i a hlt ha
      simp [hhandle] at hother
    · obtain rfl : b = a := Option.some.inj (hj.symm.trans ha)
      rw [List.getElem?_set_self (List.getElem?_eq_some_iff.1 ha).1]
      by_cases hreserved : b.occupancy = .reserved k.symbol
      · rw [if_pos hreserved]
        refine .inr ⟨rfl, fun m c d hm hc hd => ?_, hreserved⟩
        obtain rfl : b = d := Option.some.inj (hj.symm.trans hd)
        have hother : c.handle ≠ k.handle := by simpa using hfirst m c hm hc
        rw [beq_iff_eq.1 hb]
        exact hother
      · rw [if_neg hreserved]
        exact .inl ⟨rfl, fun h => hreserved h.2.2⟩
    · refine .inl ⟨by rw [List.getElem?_set_ne (Nat.ne_of_lt hlt), ha], fun ⟨hprimary, hhandle, _⟩ => ?_⟩
      exact hprimary j b a hlt hj ha ((beq_iff_eq.1 hb).trans hhandle.symm)

theorem isPrimary_release (q : Pool) (k : Ticket) (i : Nat) : (q.release k).IsPrimary i ↔ q.IsPrimary i :=
  isPrimary_congr (map_updateFirst (release_handle k) q.slots) i

theorem length_releaseAll (q : Pool) (tickets : List Ticket) :
    (q.releaseAll tickets).slots.length = q.slots.length := by
  induction tickets generalizing q with
  | nil => rfl
  | cons k rest ih => exact (ih (q.release k)).trans (updateFirst_length _ _ _)

theorem getElem?_releaseAll_of_not (ha : q.slots[i]? = some a)
    (h : ∀ k ∈ tickets, ¬(q.IsPrimary i ∧ a.occupancy = .reserved k.symbol)) :
    (q.releaseAll tickets).slots[i]? = some a := by
  induction tickets generalizing q with
  | nil => exact ha
  | cons k rest ih =>
      have hkeep : (q.release k).slots[i]? = some a := by
        obtain ⟨hsame, -⟩ | ⟨-, hlost⟩ := getElem?_release k ha
        · exact hsame
        · exact absurd hlost (h k List.mem_cons_self)
      refine ih hkeep fun k' hk' => ?_
      rw [isPrimary_release]
      exact h k' (List.mem_cons_of_mem _ hk')

/-- The first slot of a handle is given back. -/
theorem getElem?_releaseAll_of_mem (ha : q.slots[i]? = some a) (hprimary : q.IsPrimary i)
    (hreserved : a.occupancy = .reserved s) (hmem : ⟨a.handle, s⟩ ∈ tickets) :
    (q.releaseAll tickets).slots[i]? = some { a with occupancy := .free } := by
  induction tickets generalizing q with
  | nil => cases hmem
  | cons k rest ih =>
      obtain ⟨hsame, hnot⟩ | ⟨hfree, -⟩ := getElem?_release k ha
      · refine ih hsame ((isPrimary_release q k i).2 hprimary) ?_
        refine (List.mem_cons.1 hmem).resolve_left ?_
        rintro rfl
        exact hnot ⟨hprimary, rfl, hreserved⟩
      · exact getElem?_releaseAll_of_not (q := q.release k) hfree (by simp)

namespace Drawn

/-- A slot that is not the first of its handle stays reserved. -/
theorem getElem?_lost (h : Drawn p tickets q) (hi : q.slots[i]? = some b) (hlost : ¬p.IsPrimary i) :
    (q.releaseAll tickets).slots[i]? = some b := by
  refine getElem?_releaseAll_of_not hi fun k _ hk => hlost ?_
  exact (h.setsAside.isPrimary_iff i).1 hk.1

/-- Giving tickets back leaves the pool as it was, but for what is lost. -/
theorem leaks (h : Drawn p tickets q) : p.Leaks (q.releaseAll tickets) := by
  refine ⟨(length_releaseAll q tickets).trans h.setsAside.length_eq, fun i a ha => ?_⟩
  obtain hsame | ⟨hfree, s, ⟨a', ha', hmem⟩, hi⟩ := h.setsAside.slot i a ha
  · refine .inl (getElem?_releaseAll_of_not hsame fun k hk hreserved => ?_)
    have hheld : p.isHeld k.symbol = true :=
      List.any_eq_true.2 ⟨a, List.mem_of_getElem? ha, by simp [hreserved.2, Occupancy.heldBy]⟩
    rw [h.not_held k hk] at hheld
    cases hheld
  · obtain rfl : a' = a := Option.some.inj (ha'.symm.trans ha)
    by_cases hprimary : p.IsPrimary i
    · left
      rw [getElem?_releaseAll_of_mem hi ((h.setsAside.isPrimary_iff i).2 hprimary) rfl hmem]
      simp [← hfree]
    · exact .inr ⟨hfree, s, hprimary, h.getElem?_lost hi hprimary⟩

end Drawn

end Pool

end SurfaceFabric
