import Mathlib.Data.List.Forall2
import SurfaceFabric.Proofs.Pool

/-!
Pools that lose free factories. When factories are bound, those that were free before stay free or are
bound, and all others keep their holders. The factory that was offered to a symbol is then still the one
offered, unless it was bound itself.
-/

namespace SurfaceFabric

theorem Pool.free_of_isOffered {template : String} {slot : PoolSlot}
    (h : Pool.isOffered template slot = true) : slot.occupancy = .free := by
  simpa using (Bool.and_eq_true_iff.1 h).2

/-- A slot that is as before, or was free and is bound to a symbol that may claim it. -/
def PoolSlot.Becomes (claim : PoolSlot → Symbol → Prop) (a b : PoolSlot) : Prop :=
  b = a ∨ a.occupancy = .free ∧ ∃ s, claim a s ∧ b = { a with occupancy := .bound s }

namespace PoolSlot.Becomes

variable {claim : PoolSlot → Symbol → Prop} {a b : PoolSlot}

theorem handle_eq (h : Becomes claim a b) : b.handle = a.handle := by
  obtain rfl | ⟨-, s, -, rfl⟩ := h <;> rfl

theorem entrance_eq (h : Becomes claim a b) : b.entrance = a.entrance := by
  obtain rfl | ⟨-, s, -, rfl⟩ := h <;> rfl

theorem site_eq (h : Becomes claim a b) : (b.template, b.entrance) = (a.template, a.entrance) := by
  obtain rfl | ⟨-, s, -, rfl⟩ := h <;> rfl

theorem eq_of_free (h : Becomes claim a b) (hb : b.occupancy = .free) : b = a := by
  obtain rfl | ⟨-, s, -, rfl⟩ := h
  · rfl
  · cases hb

/-- What nobody may claim stays as it is. -/
theorem eq_of_unclaimed (h : Becomes claim a b) (ha : ∀ s, ¬claim a s) : b = a := by
  obtain rfl | ⟨-, s, hs, -⟩ := h
  · rfl
  · exact absurd hs (ha s)

theorem eq_of_isOffered (h : Becomes claim a b) {template : String}
    (hb : Pool.isOffered template b = true) : b = a :=
  h.eq_of_free (Pool.free_of_isOffered hb)

theorem bound_iff (h : Becomes claim a b) {s : Symbol} (hs : ¬claim a s) :
    b.occupancy = .bound s ↔ a.occupancy = .bound s := by
  obtain rfl | ⟨hfree, u, hu, rfl⟩ := h
  · rfl
  · have hne : u ≠ s := by
      rintro rfl
      exact hs hu
    simp [hfree, hne]

theorem heldBy_eq (h : Becomes claim a b) {s : Symbol} (hs : ¬claim a s) :
    b.occupancy.heldBy s = a.occupancy.heldBy s := by
  obtain rfl | ⟨hfree, u, hu, rfl⟩ := h
  · rfl
  · have hne : u ≠ s := by
      rintro rfl
      exact hs hu
    simp [hfree, Occupancy.heldBy, hne]

end PoolSlot.Becomes

/-- Each of the later slots comes from one of the earlier ones. -/
theorem PoolSlot.exists_becomes {claim : PoolSlot → Symbol → Prop} {l l' : List PoolSlot} {b : PoolSlot}
    (h : List.Forall₂ (Becomes claim) l l') (hb : b ∈ l') : ∃ a ∈ l, Becomes claim a b := by
  induction h with
  | nil => cases hb
  | cons hfirst _ ih =>
      rcases List.mem_cons.1 hb with rfl | hb
      · exact ⟨_, List.mem_cons_self, hfirst⟩
      · obtain ⟨a, ha, hab⟩ := ih hb
        exact ⟨a, List.mem_cons_of_mem _ ha, hab⟩

namespace Pool

theorem preferable_iff {a b : PoolSlot} : preferable a b = true ↔
    a.cycles < b.cycles ∨ a.cycles = b.cycles ∧ a.idleSince < b.idleSince := by
  simp [preferable]

theorem preferred?_eq_none_iff {test : PoolSlot → Bool} {i : Nat} {slots : List PoolSlot} :
    preferred? test i slots = none ↔ ∀ slot ∈ slots, test slot = false := by
  induction slots generalizing i with
  | nil => simp [preferred?]
  | cons first rest ih =>
      rw [preferred?, List.forall_mem_cons, ← ih (i := i + 1)]
      cases test first with
      | false => simp
      | true =>
          cases preferred? test (i + 1) rest with
          | none => simp
          | some later =>
              dsimp only
              split <;> simp

/-- No slot that passes the test is preferable to the preferred one. -/
theorem preferred?_best {test : PoolSlot → Bool} {i j : Nat} {slots : List PoolSlot} {slot : PoolSlot}
    (h : preferred? test i slots = some (j, slot)) :
    ∀ other ∈ slots, test other = true → preferable other slot = false := by
  induction slots generalizing i j slot with
  | nil => cases h
  | cons first rest ih =>
      rw [preferred?] at h
      simp only [List.forall_mem_cons, ← Bool.not_eq_true, preferable_iff]
      split at h
      · next hfirst =>
          refine ⟨fun htest => ?_, ?_⟩
          · rw [hfirst] at htest
            cases htest
          · simpa only [← Bool.not_eq_true, preferable_iff] using ih h
      · next hnone =>
          cases h
          refine ⟨by omega, fun other hother htest => ?_⟩
          rw [preferred?_eq_none_iff.1 hnone other hother] at htest
          cases htest
      · next hsome =>
          have hbest := ih hsome
          simp only [← Bool.not_eq_true, preferable_iff] at hbest
          split at h
          · next hpreferable =>
              cases h
              rw [preferable_iff] at hpreferable
              exact ⟨by omega, hbest⟩
          · next hpreferable =>
              cases h
              rw [preferable_iff] at hpreferable
              refine ⟨by omega, fun other hother htest => ?_⟩
              have := hbest other hother htest
              omega

variable {claim claim' : PoolSlot → Symbol → Prop}

/-- A test that only free slots pass is passed by no more slots than before. -/
theorem not_passed_becomes {t : PoolSlot → Bool} {l l' : List PoolSlot}
    (hl : List.Forall₂ (PoolSlot.Becomes claim) l l')
    (ht : ∀ slot, t slot = true → slot.occupancy = .free) (h : ∀ slot ∈ l, t slot = false) :
    ∀ slot ∈ l', t slot = false := by
  intro b hb
  obtain ⟨a, ha, hab⟩ := PoolSlot.exists_becomes hl hb
  by_contra hpass
  rw [Bool.not_eq_false] at hpass
  rw [hab.eq_of_free (ht b hpass), h a ha] at hpass
  cases hpass

/-- The preferred slot stays the preferred one as long as it is not bound itself. -/
theorem preferred?_becomes {template : String} {i j : Nat} {l l' : List PoolSlot} {slot : PoolSlot}
    (hl : List.Forall₂ (PoolSlot.Becomes claim) l l')
    (h : preferred? (isOffered template) i l = some (j, slot)) (hslot : ∀ s, ¬claim slot s) :
    preferred? (isOffered template) i l' = some (j, slot) := by
  induction hl generalizing i with
  | nil => exact h
  | @cons a b rest rest' hab hrest ih =>
      have hbest := preferred?_best h
      rw [preferred?] at h ⊢
      split at h
      · next hfirst =>
          have hfirst' : isOffered template b = false := by
            by_contra hoffered
            rw [Bool.not_eq_false] at hoffered
            rw [← hab.eq_of_isOffered hoffered, hoffered] at hfirst
            cases hfirst
          rw [hfirst']
          exact ih h
      · next hfirst hnone =>
          cases h
          have hnone' : preferred? (isOffered template) (j + 1) rest' = none := by
            apply preferred?_eq_none_iff.2
            exact not_passed_becomes hrest (fun _ => free_of_isOffered) (preferred?_eq_none_iff.1 hnone)
          rw [hab.eq_of_unclaimed hslot, hfirst, hnone']
      · next k other hfirst hsome =>
          split at h
          · next hpreferable =>
              cases h
              rw [ih hsome]
              -- the first slot is as it was, or no longer offered
              cases hoffered : isOffered template b with
              | false => rfl
              | true =>
                  rw [hab.eq_of_isOffered hoffered]
                  dsimp only
                  rw [if_pos hpreferable]
          · cases h
            rw [hab.eq_of_unclaimed hslot, hfirst]
            cases hlater : preferred? (isOffered template) (j + 1) rest' with
            | none => rfl
            | some later =>
                obtain ⟨k', other'⟩ := later
                obtain ⟨-, hget, hoffered⟩ := preferred?_eq_some hlater
                obtain ⟨x, hx, hbecomes⟩ := PoolSlot.exists_becomes hrest (List.mem_of_getElem? hget)
                have hsame := hbecomes.eq_of_isOffered hoffered
                have hworse := hbest x (List.mem_cons_of_mem _ hx) (hsame ▸ hoffered)
                dsimp only
                rw [hsame, hworse]
                rfl

/-- The first slot that passes a test which binding does not touch comes from the first one before. -/
theorem find?_becomes {t : PoolSlot → Bool} {l l' : List PoolSlot}
    (hl : List.Forall₂ (PoolSlot.Becomes claim) l l')
    (ht : ∀ a b, PoolSlot.Becomes claim a b → t b = t a) :
    l.find? t = none ∧ l'.find? t = none ∨
      ∃ a b, PoolSlot.Becomes claim a b ∧ l.find? t = some a ∧ l'.find? t = some b := by
  induction hl with
  | nil => exact .inl ⟨rfl, rfl⟩
  | @cons a b _ _ hab _ ih =>
      have hsame := ht a b hab
      cases ha : t a with
      | true => exact .inr ⟨a, b, hab, by simp [ha], by simp [hsame, ha]⟩
      | false => simpa [ha, hsame] using ih

theorem any_becomes {t : PoolSlot → Bool} {l l' : List PoolSlot}
    (hl : List.Forall₂ (PoolSlot.Becomes claim) l l')
    (ht : ∀ a b, PoolSlot.Becomes claim a b → t b = t a) : l'.any t = l.any t := by
  induction hl with
  | nil => rfl
  | cons hab _ ih => rw [List.any_cons, List.any_cons, ht _ _ hab, ih]

/-- A way to pick a slot for a template. What it picks stays its pick until it is bound, and where it picks
nothing it goes on to pick nothing. -/
structure Steady (pick : String → List PoolSlot → Option (Nat × PoolSlot)) : Prop where
  mem : ∀ {template l i slot}, pick template l = some (i, slot) → slot ∈ l
  none : ∀ {claim template l l'}, List.Forall₂ (PoolSlot.Becomes claim) l l' →
    pick template l = none → pick template l' = none
  some : ∀ {claim template l l' i slot}, List.Forall₂ (PoolSlot.Becomes claim) l l' →
    pick template l = some (i, slot) → (∀ s, ¬claim slot s) → pick template l' = some (i, slot)

theorem steady_preferred? : Steady fun template => preferred? (isOffered template) 0 where
  mem h := List.mem_of_getElem? (preferred?_eq_some h).2.1
  none hl h := preferred?_eq_none_iff.2
    (not_passed_becomes hl (fun _ => free_of_isOffered) (preferred?_eq_none_iff.1 h))
  some := preferred?_becomes

def offered? (handle : Nat) (template : String) (slots : List PoolSlot) : Option (Nat × PoolSlot) :=
  (slots.findIdx? fun slot => slot.handle == handle && isOffered template slot).bind fun i =>
    slots[i]?.map fun slot => (i, slot)

theorem offered?_eq_none_iff {handle : Nat} {template : String} {slots : List PoolSlot} :
    offered? handle template slots = none ↔
      ∀ slot ∈ slots, (slot.handle == handle && isOffered template slot) = false := by
  rw [← List.findIdx?_eq_none_iff, offered?]
  cases hfind : slots.findIdx? fun slot => slot.handle == handle && isOffered template slot with
  | none => simp
  | some i =>
      obtain ⟨hlt, -⟩ := List.findIdx?_eq_some_iff_getElem.1 hfind
      simp [List.getElem?_eq_getElem hlt]

theorem offered?_cons (handle : Nat) (template : String) (first : PoolSlot) (rest : List PoolSlot) :
    offered? handle template (first :: rest) =
      if first.handle == handle && isOffered template first then some (0, first)
      else (offered? handle template rest).map fun x => (x.1 + 1, x.2) := by
  rw [offered?, List.findIdx?_cons]
  split
  · rfl
  · rw [offered?, Option.map_bind, Option.bind_map]
    congr 1
    funext i
    simp [Function.comp_def]

theorem offered?_becomes {handle i : Nat} {template : String} {l l' : List PoolSlot} {slot : PoolSlot}
    (hl : List.Forall₂ (PoolSlot.Becomes claim) l l') (h : offered? handle template l = some (i, slot))
    (hslot : ∀ s, ¬claim slot s) : offered? handle template l' = some (i, slot) := by
  induction hl generalizing i with
  | nil => exact h
  | @cons a b _ _ hab _ ih =>
      rw [offered?_cons] at h ⊢
      split at h
      · next ha =>
          cases h
          rw [hab.eq_of_unclaimed hslot, if_pos ha]
      · next ha =>
          obtain ⟨⟨k, _⟩, hk, heq⟩ := Option.map_eq_some_iff.1 h
          cases heq
          rw [if_neg, ih hk]
          · rfl
          · intro hb
            rw [hab.eq_of_isOffered (Bool.and_eq_true_iff.1 hb).2] at hb
            exact ha hb

theorem steady_offered? (handle : Nat) : Steady (offered? handle) where
  mem h := by
    obtain ⟨i, -, h⟩ := Option.bind_eq_some_iff.1 h
    obtain ⟨slot, hget, heq⟩ := Option.map_eq_some_iff.1 h
    cases heq
    exact List.mem_of_getElem? hget
  none hl h := by
    refine offered?_eq_none_iff.2 (not_passed_becomes hl ?_ (offered?_eq_none_iff.1 h))
    exact fun slot hslot => free_of_isOffered (Bool.and_eq_true_iff.1 hslot).2
  some := offered?_becomes

variable {p q r : Pool} {s : Symbol}

def reserveBy (pick : String → List PoolSlot → Option (Nat × PoolSlot)) (p : Pool) (s : Symbol) :
    Option (Ticket × Pool) :=
  s.template?.bind fun template =>
    if p.isHeld s then none else (pick template p.slots).map fun x => p.reserveSlot x.1 x.2 s

theorem reserve?_eq (p : Pool) (s : Symbol) :
    p.reserve? s = p.reserveBy (fun template => preferred? (isOffered template) 0) s := by
  unfold reserve? reserveBy
  cases s.template? with
  | none => rfl
  | some template =>
      show (if p.isHeld s = true then _ else _) = if p.isHeld s = true then _ else _
      split
      · rfl
      · dsimp only
        cases preferred? (isOffered template) 0 p.slots with
        | none => rfl
        | some x => rfl

theorem reserveHandle?_eq (p : Pool) (s : Symbol) (handle : Nat) :
    p.reserveHandle? s handle = p.reserveBy (offered? handle) s := by
  unfold reserveHandle? reserveBy offered?
  cases s.template? with
  | none => rfl
  | some template =>
      show (if p.isHeld s = true then _ else _) = if p.isHeld s = true then _ else _
      split
      · rfl
      · cases p.slots.findIdx? fun slot => slot.handle == handle && isOffered template slot with
        | none => rfl
        | some i =>
            show p.slots[i]?.bind _ = (p.slots[i]?.map _).map _
            cases p.slots[i]? with
            | none => rfl
            | some slot => rfl

theorem symbol_of_reserveBy {pick : String → List PoolSlot → Option (Nat × PoolSlot)} {k : Ticket}
    (h : p.reserveBy pick s = some (k, q)) : k.symbol = s := by
  obtain ⟨template, -, h⟩ := Option.bind_eq_some_iff.1 h
  split at h
  · cases h
  · obtain ⟨x, -, heq⟩ := Option.map_eq_some_iff.1 h
    cases heq
    rfl

/-- A pool in which free factories were bound to symbols that may claim them. -/
def Binds (claim : PoolSlot → Symbol → Prop) (p q : Pool) : Prop :=
  List.Forall₂ (PoolSlot.Becomes claim) p.slots q.slots

namespace Binds

theorem refl (claim : PoolSlot → Symbol → Prop) (p : Pool) : Binds claim p p :=
  List.forall₂_same.2 fun _ _ => .inl rfl

theorem mono (h : Binds claim p q) (himp : ∀ slot s, claim slot s → claim' slot s) :
    Binds claim' p q := by
  refine List.Forall₂.imp ?_ h
  rintro a b (rfl | ⟨hfree, s, hs, rfl⟩)
  · exact .inl rfl
  · exact .inr ⟨hfree, s, himp a s hs, rfl⟩

theorem trans (h : Binds claim p q) (h' : Binds claim q r) : Binds claim p r := by
  obtain ⟨l⟩ := p
  obtain ⟨l'⟩ := q
  obtain ⟨l''⟩ := r
  show List.Forall₂ _ l l''
  replace h : List.Forall₂ _ l l' := h
  replace h' : List.Forall₂ _ l' l'' := h'
  induction h generalizing l'' with
  | nil => exact h'
  | cons hab _ ih =>
      cases h' with
      | cons hbc hrest =>
          refine .cons ?_ (ih _ hrest)
          obtain rfl | ⟨hfree, s, hs, rfl⟩ := hab
          · exact hbc
          · -- a slot that was bound in between keeps its holder
            obtain rfl | ⟨hfree', -⟩ := hbc
            · exact .inr ⟨hfree, s, hs, rfl⟩
            · cases hfree'

theorem handles_eq (h : Binds claim p q) :
    p.slots.map PoolSlot.handle = q.slots.map PoolSlot.handle := by
  have hmap : List.Forall₂ (· = ·) (p.slots.map PoolSlot.handle) (q.slots.map PoolSlot.handle) := by
    refine List.forall₂_map_left_iff.2 (List.forall₂_map_right_iff.2 (List.Forall₂.imp ?_ h))
    exact fun _ _ hab => hab.handle_eq.symm
  rwa [List.forall₂_eq_eq_eq] at hmap

theorem distinct (h : Binds claim p q) (hp : p.Distinct) : q.Distinct := by
  show List.Nodup _
  rw [← h.handles_eq]
  exact hp

theorem entrance?_eq (h : Binds claim p q) (handle : Nat) : q.entrance? handle = p.entrance? handle := by
  have hfind := find?_becomes (t := fun slot => slot.handle == handle) h fun a b hab => by
    rw [hab.handle_eq]
  rw [entrance?, entrance?, slot?, slot?]
  obtain ⟨hp, hq⟩ | ⟨a, b, hab, hp, hq⟩ := hfind
  · rw [hp, hq]
  · rw [hp, hq, Option.map_some, Option.map_some, hab.entrance_eq]

/-- A symbol that claims nothing keeps the factory it is bound to. -/
theorem binding?_eq (h : Binds claim p q) (hs : ∀ slot, ¬claim slot s) : q.binding? s = p.binding? s := by
  have hfind := find?_becomes (t := fun slot => slot.occupancy == .bound s) h fun a b hab => by
    rw [Bool.eq_iff_iff, beq_iff_eq, beq_iff_eq]
    exact hab.bound_iff (hs a)
  rw [binding?, binding?]
  obtain ⟨hp, hq⟩ | ⟨a, b, hab, hp, hq⟩ := hfind
  · rw [hp, hq]
  · have hbound : a.occupancy = .bound s := by simpa using List.find?_some hp
    obtain rfl | ⟨hfree, -⟩ := hab
    · rw [hp, hq]
    · rw [hbound] at hfree
      cases hfree

theorem isHeld_eq (h : Binds claim p q) (hs : ∀ slot, ¬claim slot s) : q.isHeld s = p.isHeld s :=
  any_becomes h fun a _ hab => hab.heldBy_eq (hs a)

/-- Where nothing could be reserved for a symbol, nothing can. -/
theorem reserveBy_eq_none {pick : String → List PoolSlot → Option (Nat × PoolSlot)} (h : Binds claim p q)
    (hpick : Steady pick) (hs : ∀ slot, ¬claim slot s) (hp : p.reserveBy pick s = none) :
    q.reserveBy pick s = none := by
  rw [reserveBy] at hp ⊢
  rw [h.isHeld_eq hs]
  cases htemplate : s.template? with
  | none => rfl
  | some template =>
      rw [htemplate, Option.bind_some] at hp
      rw [Option.bind_some]
      split at hp
      · next hheld => rw [if_pos hheld]
      · next hheld =>
          rw [if_neg hheld, hpick.none h (Option.map_eq_none_iff.1 hp)]
          rfl

/-- The factory that was reserved for a symbol is reserved for it again, unless it was bound. -/
theorem reserveBy_eq_some {pick : String → List PoolSlot → Option (Nat × PoolSlot)} {k : Ticket}
    {p' : Pool} (h : Binds claim p q) (hpick : Steady pick) (hs : ∀ slot, ¬claim slot s)
    (hk : ∀ slot ∈ p.slots, slot.handle = k.handle → ∀ u, ¬claim slot u)
    (hp : p.reserveBy pick s = some (k, p')) : ∃ q', q.reserveBy pick s = some (k, q') := by
  rw [reserveBy] at hp ⊢
  rw [h.isHeld_eq hs]
  obtain ⟨template, htemplate, hp⟩ := Option.bind_eq_some_iff.1 hp
  rw [htemplate, Option.bind_some]
  split at hp
  · cases hp
  · next hheld =>
      obtain ⟨⟨i, slot⟩, hslot, heq⟩ := Option.map_eq_some_iff.1 hp
      obtain ⟨rfl, rfl⟩ := Prod.mk.inj heq
      rw [if_neg hheld, hpick.some h hslot (hk slot (hpick.mem hslot) rfl)]
      exact ⟨_, rfl⟩

/-- Factories that are not free stay as they are. -/
theorem mem_of_not_free (h : Binds claim p q) {slot : PoolSlot} (hslot : slot ∈ p.slots)
    (hheld : slot.occupancy ≠ .free) : slot ∈ q.slots := by
  obtain ⟨i, hi⟩ := List.mem_iff_get.1 hslot
  obtain ⟨hlength, hget⟩ := List.forall₂_iff_get.1 h
  have hbecomes := hget i i.2 (hlength ▸ i.2)
  obtain heq | ⟨hfree, -⟩ := hbecomes
  · have hmem := List.get_mem q.slots ⟨i, hlength ▸ i.2⟩
    rw [heq] at hmem
    exact hi ▸ hmem
  · exact absurd (hi ▸ hfree) hheld

end Binds

theorem binding?_isSome_iff :
    (p.binding? s).isSome = true ↔ ∃ slot ∈ p.slots, slot.occupancy = .bound s := by
  simp [binding?, List.find?_isSome]

def sites (p : Pool) : List (String × Cell) := p.slots.map fun slot => (slot.template, slot.entrance)

def Holds (p : Pool) (s : Symbol) (e : Cell) : Prop :=
  ∃ slot ∈ p.slots, slot.occupancy = .bound s ∧ slot.entrance = e

/-- Where no two factories have the same entrance, one symbol at most holds the factory of an entrance. -/
theorem eq_of_holds_entrance (h : (p.sites.map Prod.snd).Nodup) {u : Symbol} {e : Cell} (hs : p.Holds s e)
    (hu : p.Holds u e) : s = u := by
  obtain ⟨slot, hslot, hbound, rfl⟩ := hs
  obtain ⟨slot', hslot', hbound', hsame⟩ := hu
  rw [sites, List.map_map] at h
  obtain rfl := List.inj_on_of_nodup_map h hslot' hslot hsame
  exact Occupancy.bound.inj (hbound.symm.trans hbound')

theorem Binds.sites_eq (h : Binds claim p q) : q.sites = p.sites := by
  have hmap : List.Forall₂ (· = ·) p.sites q.sites := by
    refine List.forall₂_map_left_iff.2 (List.forall₂_map_right_iff.2 (List.Forall₂.imp ?_ h))
    exact fun _ _ hab => hab.site_eq.symm
  rw [List.forall₂_eq_eq_eq] at hmap
  exact hmap.symm

theorem Binds.holds (h : Binds claim p q) {e : Cell} (hs : p.Holds s e) : q.Holds s e := by
  obtain ⟨slot, hslot, hbound, hentrance⟩ := hs
  exact ⟨slot, h.mem_of_not_free hslot (by simp [hbound]), hbound, hentrance⟩

/-- What a symbol holds it held before, or it was free for the symbol to claim. -/
theorem Binds.holds_cases (h : Binds claim p q) {e : Cell} (hs : q.Holds s e) :
    p.Holds s e ∨ ∃ slot ∈ p.slots, claim slot s := by
  obtain ⟨b, hb, hbound, hentrance⟩ := hs
  obtain ⟨a, ha, rfl | ⟨-, u, hu, rfl⟩⟩ := PoolSlot.exists_becomes h hb
  · exact .inl ⟨b, ha, hbound, hentrance⟩
  · obtain rfl := Occupancy.bound.inj hbound
    exact .inr ⟨a, ha, hu⟩

theorem Distinct.slot?_eq (h : p.Distinct) {slot : PoolSlot} (hslot : slot ∈ p.slots) :
    p.slot? slot.handle = some slot := by
  obtain ⟨found, hfound⟩ : ∃ found, p.slot? slot.handle = some found := by
    apply Option.isSome_iff_exists.1
    exact List.find?_isSome.2 ⟨slot, hslot, by simp⟩
  have hhandle : found.handle = slot.handle := by simpa using List.find?_some hfound
  rw [hfound, List.inj_on_of_nodup_map h (List.mem_of_find?_eq_some hfound) hslot hhandle]

theorem entrance?_eq_some (h : p.Distinct) {slot : PoolSlot} (hslot : slot ∈ p.slots) :
    p.entrance? slot.handle = some slot.entrance := by
  rw [entrance?, h.slot?_eq hslot, Option.map_some]

variable {p₀ : Pool} {ticket : Ticket} {tickets : List Ticket}

theorem Reserves.entrance?_eq (hr : Reserves p ticket q) (h : p.Distinct) {slot : PoolSlot}
    (hslot : slot ∈ p.slots) (hhandle : slot.handle = ticket.handle) :
    q.entrance? ticket.handle = some slot.entrance := by
  have hmem : ({ slot with occupancy := .reserved ticket.symbol } : PoolSlot) ∈ q.slots := by
    rw [hr.eq_update, slots_update h]
    exact List.mem_map.2 ⟨slot, hslot, if_pos hhandle⟩
  have hentrance := entrance?_eq_some (hr.distinct h) hmem
  dsimp only at hentrance
  rwa [hhandle] at hentrance

theorem Reserves.entrance?_same (hr : Reserves p ticket q) (h : p.Distinct) :
    q.entrance? ticket.handle = p.entrance? ticket.handle := by
  obtain ⟨slot, hslot, hhandle, -⟩ := hr.free
  rw [hr.entrance?_eq h hslot hhandle, ← hhandle, entrance?_eq_some h hslot]

theorem update_update (h : p.Distinct) {handle : Nat} {f g : PoolSlot → PoolSlot}
    (hf : ∀ slot, (f slot).handle = slot.handle) :
    (p.update handle f).update handle g = p.update handle (g ∘ f) := by
  apply congrArg Pool.mk
  show ((p.update handle f).update handle g).slots = (p.update handle (g ∘ f)).slots
  rw [slots_update (h.update hf), slots_update h, slots_update h, List.map_map]
  apply List.map_congr_left
  intro slot _
  by_cases hslot : slot.handle = handle <;> simp [hslot, hf]

theorem Distinct.commitAll (h : p.Distinct) (tickets : List Ticket) : (p.commitAll tickets).Distinct := by
  induction tickets generalizing p with
  | nil => exact h
  | cons k rest ih => exact ih (p := p.commit k) (h.update fun _ => rfl)

theorem commitAll_update (h : p.Distinct) {handle : Nat} {g : PoolSlot → PoolSlot}
    (hg : ∀ slot, (g slot).handle = slot.handle) (hne : ∀ k ∈ tickets, k.handle ≠ handle) :
    (p.update handle g).commitAll tickets = (p.commitAll tickets).update handle g := by
  induction tickets generalizing p with
  | nil => rfl
  | cons k rest ih =>
      show ((p.update handle g).commit k).commitAll rest = ((p.commit k).commitAll rest).update handle g
      have hcomm : (p.update handle g).commit k = (p.commit k).update handle g :=
        update_comm h (hne k List.mem_cons_self).symm hg fun _ => rfl
      rw [hcomm]
      exact ih (h.update fun _ => rfl) fun k' hk' => hne k' (List.mem_cons_of_mem _ hk')

/-- A reservation is bound the same way whether it was made before or after other tickets are bound. -/
theorem Reserves.commitAll_eq (hr : Reserves p ticket q) (h : Pending p₀ tickets p) :
    q.commitAll (tickets ++ [ticket]) = (p.commitAll tickets).commit ticket := by
  calc q.commitAll (tickets ++ [ticket])
      = (q.commitAll tickets).commit ticket := List.foldl_append
    _ = (p.commitAll tickets).commit ticket := by
        rw [hr.eq_update, commitAll_update h.distinct ?_ (hr.handle_ne h), commit,
          update_update (h.distinct.commitAll tickets)]
        · rfl
        · exact fun _ => rfl
        · exact fun _ => rfl

theorem mem_commitAll (h : p.Distinct) {slot : PoolSlot} (hslot : slot ∈ p.slots)
    (hne : ∀ k ∈ tickets, k.handle ≠ slot.handle) : slot ∈ (p.commitAll tickets).slots := by
  induction tickets generalizing p with
  | nil => exact hslot
  | cons k rest ih =>
      refine ih (p := p.commit k) (h.update fun _ => rfl) ?_ fun k' hk' => hne k' (List.mem_cons_of_mem _ hk')
      rw [commit, slots_update h]
      exact List.mem_map.2 ⟨slot, hslot, if_neg (hne k List.mem_cons_self).symm⟩

theorem mem_commit (h : p.Distinct) {slot : PoolSlot} (hslot : slot ∈ p.slots)
    (hhandle : slot.handle = ticket.handle) :
    { slot with occupancy := .bound ticket.symbol } ∈ (p.commit ticket).slots := by
  rw [commit, slots_update h]
  exact List.mem_map.2 ⟨slot, hslot, if_pos hhandle⟩

/-- Binding a free factory to a symbol that may claim it. -/
theorem binds_commit (h : p.Distinct) {slot : PoolSlot} (hslot : slot ∈ p.slots)
    (hhandle : slot.handle = ticket.handle) (hfree : slot.occupancy = .free)
    (hclaim : claim slot ticket.symbol) : Binds claim p (p.commit ticket) := by
  rw [Binds, commit, slots_update h]
  apply List.forall₂_map_right_iff.2
  apply List.forall₂_same.2
  intro other hother
  by_cases hsame : other.handle = ticket.handle
  · obtain rfl := List.inj_on_of_nodup_map h hother hslot (hsame.trans hhandle.symm)
    exact .inr ⟨hfree, ticket.symbol, hclaim, if_pos hsame⟩
  · exact .inl (if_neg hsame)

theorem map_updateFirst {α β : Type} {t : α → Bool} {g : α → α} {f : α → β} (h : ∀ a, f (g a) = f a)
    (l : List α) : (updateFirst t g l).map f = l.map f := by
  induction l with
  | nil => rfl
  | cons a rest ih =>
      rw [updateFirst]
      split
      · simp [h]
      · simp [ih]

theorem mem_updateFirst {α : Type} {t : α → Bool} {g : α → α} {a : α} {l : List α} (ha : a ∈ l)
    (hpass : t a = false) : a ∈ updateFirst t g l := by
  induction l with
  | nil => cases ha
  | cons b rest ih =>
      rw [updateFirst]
      rcases List.mem_cons.1 ha with rfl | ha
      · simp [hpass]
      · split
        · exact List.mem_cons_of_mem _ ha
        · exact List.mem_cons_of_mem _ (ih ha)

theorem Distinct.free (h : p.Distinct) (s : Symbol) (tick : Nat) : (p.free s tick).Distinct := by
  show (List.map _ (updateFirst _ _ p.slots)).Nodup
  rw [map_updateFirst]
  · exact h
  · exact fun _ => rfl

/-- Giving one symbol's factory back takes no factory from another symbol. -/
theorem binding?_free (hs : (p.binding? s).isSome = true) {u : Symbol} (hne : s ≠ u) (tick : Nat) :
    ((p.free u tick).binding? s).isSome = true := by
  obtain ⟨slot, hslot, hbound⟩ := binding?_isSome_iff.1 hs
  refine binding?_isSome_iff.2 ⟨slot, mem_updateFirst hslot ?_, hbound⟩
  simp [hbound, hne]

end Pool

end SurfaceFabric
