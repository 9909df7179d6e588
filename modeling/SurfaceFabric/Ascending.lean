/-!
Members of lists that come first in some order, and ascending lists without repetitions.
-/

namespace SurfaceFabric

theorem max?_getD_le {b : Nat} {l : List Nat} (h : ∀ n ∈ l, n ≤ b) : l.max?.getD 0 ≤ b := by
  cases hmax : l.max? with
  | none => exact Nat.zero_le b
  | some n => exact h n (List.max?_mem hmax)

theorem max?_getD_mem {l : List Nat} (h : l ≠ []) : l.max?.getD 0 ∈ l := by
  obtain ⟨n, hmax⟩ := Option.isSome_iff_exists.1 (List.isSome_max?_of_ne_nil h)
  rw [hmax]
  exact List.max?_mem hmax

/-- Inserts a number into an ascending list that holds it at most once. -/
def insertSorted (n : Nat) : List Nat → List Nat
  | [] => [n]
  | m :: rest => if n < m then n :: m :: rest else if n = m then m :: rest
      else m :: insertSorted n rest

theorem mem_insertSorted {n k : Nat} {l : List Nat} :
    k ∈ insertSorted n l ↔ k = n ∨ k ∈ l := by
  induction l with
  | nil => simp [insertSorted]
  | cons m rest ih =>
      simp only [insertSorted]
      split
      · simp
      · split
        · next h => subst h; simp
        · simp only [List.mem_cons, ih]
          exact or_left_comm

def sortedSet (l : List Nat) : List Nat := l.foldr insertSorted []

theorem mem_sortedSet {k : Nat} {l : List Nat} : k ∈ sortedSet l ↔ k ∈ l := by
  induction l with
  | nil => simp [sortedSet]
  | cons n l ih =>
      simp only [sortedSet, List.foldr_cons, mem_insertSorted, List.mem_cons]
      exact or_congr Iff.rfl ih

def insertBy {α : Type} (le : α → α → Bool) (a : α) : List α → List α
  | [] => [a]
  | b :: rest => if le a b then a :: b :: rest else b :: insertBy le a rest

theorem insertBy_perm {α : Type} (le : α → α → Bool) (a : α) (l : List α) :
    (insertBy le a l).Perm (a :: l) := by
  induction l with
  | nil => exact .refl _
  | cons b rest ih =>
      simp only [insertBy]
      split
      · exact .refl _
      · exact (ih.cons b).trans (.swap a b rest)

/-- The members of a list in order, equals as they stand. Made of insertions, so that runs which
depend on an order can be evaluated by reduction. -/
def sortBy {α : Type} (le : α → α → Bool) (l : List α) : List α := l.foldr (insertBy le) []

theorem sortBy_perm {α : Type} (le : α → α → Bool) (l : List α) : (sortBy le l).Perm l := by
  induction l with
  | nil => exact .refl _
  | cons a l ih => exact (insertBy_perm le a _).trans (ih.cons a)

@[simp] theorem mem_sortBy {α : Type} {le : α → α → Bool} {a : α} {l : List α} :
    a ∈ sortBy le l ↔ a ∈ l := (sortBy_perm le l).mem_iff

/-- Inserting into an ordered list a member that comparison puts in its place. -/
theorem pairwise_insertBy {α : Type} {le : α → α → Bool} {r : α → α → Prop} {a : α} {l : List α}
    (htrans : ∀ {a b c}, r a b → r b c → r a c) (hl : l.Pairwise r)
    (ha : ∀ b ∈ l, if le a b then r a b else r b a) : (insertBy le a l).Pairwise r := by
  induction l with
  | nil => exact List.pairwise_singleton r a
  | cons b rest ih =>
      obtain ⟨hb, hrest⟩ := List.pairwise_cons.1 hl
      obtain ⟨hab, ha⟩ := List.forall_mem_cons.1 ha
      rw [insertBy]
      split
      · next hle =>
          rw [if_pos hle] at hab
          refine List.pairwise_cons.2 ⟨List.forall_mem_cons.2 ⟨hab, fun c hc => ?_⟩, hl⟩
          exact htrans hab (hb c hc)
      · next hle =>
          rw [if_neg hle] at hab
          refine List.pairwise_cons.2 ⟨fun c hc => ?_, ih hrest ha⟩
          rcases List.mem_cons.1 ((insertBy_perm le a rest).mem_iff.1 hc) with rfl | hc
          · exact hab
          · exact hb c hc

theorem pairwise_sortBy {α : Type} {le : α → α → Bool} {r : α → α → Prop} {l : List α}
    (htrans : ∀ {a b c}, r a b → r b c → r a c) (h : l.Pairwise fun a b => if le a b then r a b else r b a) :
    (sortBy le l).Pairwise r := by
  induction l with
  | nil => exact .nil
  | cons a rest ih =>
      obtain ⟨ha, hrest⟩ := List.pairwise_cons.1 h
      exact pairwise_insertBy htrans (ih hrest) fun b hb => ha b (mem_sortBy.1 hb)

/-- Of the members that are picked, one that may precede them all is inserted first. -/
theorem filter_insertBy {α : Type} {le : α → α → Bool} {p : α → Bool} {a : α} {l : List α}
    (h : ∀ b ∈ l, p a → p b → le a b) : (insertBy le a l).filter p = (a :: l).filter p := by
  induction l with
  | nil => rfl
  | cons b rest ih =>
      obtain ⟨hb, hrest⟩ := List.forall_mem_cons.1 h
      rw [insertBy]
      split
      · rfl
      · next hle =>
          rw [List.filter_cons, ih hrest]
          cases ha : p a <;> cases hpb : p b
          · simp [ha, hpb]
          · simp [ha, hpb]
          · simp [ha, hpb]
          · exact absurd (hb ha hpb) hle

/-- Sorting leaves equals as they stand. -/
theorem filter_sortBy {α : Type} {le : α → α → Bool} {p : α → Bool} (h : ∀ a b, p a → p b → le a b) (l : List α) :
    (sortBy le l).filter p = l.filter p := by
  induction l with
  | nil => rfl
  | cons a rest ih =>
      show (insertBy le a (sortBy le rest)).filter p = _
      rw [filter_insertBy fun b _ => h a b, List.filter_cons, ih, ← List.filter_cons]

theorem map_insertBy {α β : Type} {le : α → α → Bool} {le' : β → β → Bool} {f : α → β}
    (h : ∀ a b, le' (f a) (f b) = le a b) (a : α) (l : List α) :
    (insertBy le a l).map f = insertBy le' (f a) (l.map f) := by
  induction l with
  | nil => rfl
  | cons b rest ih =>
      rw [insertBy, List.map_cons, insertBy, h]
      split
      · rfl
      · rw [List.map_cons, ih]

/-- Sorting by what a map keeps. -/
theorem map_sortBy {α β : Type} {le : α → α → Bool} {le' : β → β → Bool} {f : α → β}
    (h : ∀ a b, le' (f a) (f b) = le a b) (l : List α) : (sortBy le l).map f = sortBy le' (l.map f) := by
  induction l with
  | nil => rfl
  | cons a rest ih =>
      show (insertBy le a (sortBy le rest)).map f = insertBy le' (f a) (sortBy le' (rest.map f))
      rw [map_insertBy h, ih]

theorem exists_min? {l : List Nat} (h : l ≠ []) : ∃ n, l.min? = some n :=
  Option.isSome_iff_exists.1 (List.isSome_min?_of_ne_nil h)

/-- The member that comes before all others; the last of equals. -/
def extreme? {α : Type} (before : α → α → Bool) : List α → Option α
  | [] => none
  | a :: rest => some (rest.foldl (fun best b => if before best b then best else b) a)

theorem exists_extreme? {α : Type} (before : α → α → Bool) {l : List α} {a : α} (h : a ∈ l) :
    ∃ best, extreme? before l = some best := by
  cases l with
  | nil => cases h
  | cons b rest => exact ⟨_, rfl⟩

theorem mem_of_extreme? {α : Type} {before : α → α → Bool} {l : List α} {a : α}
    (h : extreme? before l = some a) : a ∈ l := by
  cases l with
  | nil => cases h
  | cons b rest =>
      rw [extreme?, Option.some.injEq] at h
      subst h
      induction rest generalizing b with
      | nil => exact List.mem_cons_self
      | cons c rest ih =>
          rw [List.foldl_cons]
          split
          · rcases List.mem_cons.1 (ih b) with h | h
            · exact List.mem_cons.2 (.inl h)
            · exact List.mem_cons_of_mem _ (List.mem_cons_of_mem _ h)
          · exact List.mem_cons_of_mem _ (ih c)

end SurfaceFabric
