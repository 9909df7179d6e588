import SurfaceFabric.Word

/-!
How a computation that ended well got there: each step of it ended well, with a value that the later
steps were given. Two computations agree if they fail alike or end well with related values; whole runs
agree if their steps do.
-/

namespace SurfaceFabric

@[simp] theorem pure_eq_ok_iff {ε α : Type} {a b : α} :
    (pure a : Except ε α) = .ok b ↔ a = b := by
  constructor
  · intro h
    cases h
    rfl
  · rintro rfl
    rfl

theorem bind_eq_ok_iff {ε α β : Type} {x : Except ε α} {f : α → Except ε β} {b : β} :
    (x >>= f) = .ok b ↔ ∃ a, x = .ok a ∧ f a = .ok b := by
  cases x with
  | error e =>
      constructor
      · intro h
        cases h
      · rintro ⟨a, h, -⟩
        cases h
  | ok a =>
      constructor
      · intro h
        exact ⟨a, rfl, h⟩
      · rintro ⟨a', h, hf⟩
        cases h
        exact hf

/-- A computation whose result is shown by evaluation to have a property. -/
theorem exists_ok_of_any {ε α : Type} {x : Except ε α} {p : α → Prop} [DecidablePred p]
    (h : (x.toOption.any fun a => decide (p a)) = true) : ∃ a, x = .ok a ∧ p a := by
  cases x with
  | error e => cases h
  | ok a => exact ⟨a, rfl, of_decide_eq_true h⟩

theorem exists_mapM_eq_ok {α β : Type} {f : α → Checked β} {l : List α}
    (h : ∀ a ∈ l, ∃ b, f a = .ok b) : ∃ m, l.mapM f = .ok m := by
  induction l with
  | nil => exact ⟨[], rfl⟩
  | cons a rest ih =>
      obtain ⟨b, hb⟩ := h a List.mem_cons_self
      obtain ⟨m, hm⟩ := ih fun a ha => h a (List.mem_cons_of_mem _ ha)
      exact ⟨b :: m, by rw [List.mapM_cons, hb, hm]; rfl⟩

/-- Results stand where what they were made from stood. -/
theorem getElem?_of_mapM {ε α β : Type} {f : α → Except ε β} {l : List α} {m : List β} {i : Nat} {b : β}
    (h : l.mapM f = .ok m) (hb : m[i]? = some b) : ∃ a, l[i]? = some a ∧ f a = .ok b := by
  induction l generalizing m i with
  | nil =>
      cases h
      cases hb
  | cons a rest ih =>
      rw [List.mapM_cons] at h
      obtain ⟨first, hfirst, h⟩ := bind_eq_ok_iff.1 h
      obtain ⟨later, hlater, h⟩ := bind_eq_ok_iff.1 h
      cases h
      cases i with
      | zero =>
          cases hb
          exact ⟨a, rfl, hfirst⟩
      | succ i => exact ih hlater hb

theorem exists_of_mem_mapM {ε α β : Type} {f : α → Except ε β} {l : List α} {m : List β} {b : β}
    (h : l.mapM f = .ok m) (hb : b ∈ m) : ∃ a ∈ l, f a = .ok b := by
  obtain ⟨i, hi⟩ := List.mem_iff_getElem?.1 hb
  obtain ⟨a, ha, hfa⟩ := getElem?_of_mapM h hi
  exact ⟨a, List.mem_of_getElem? ha, hfa⟩

theorem length_of_mapM {ε α β : Type} {f : α → Except ε β} {l : List α} {m : List β} (h : l.mapM f = .ok m) :
    m.length = l.length := by
  induction l generalizing m with
  | nil =>
      cases h
      rfl
  | cons a rest ih =>
      rw [List.mapM_cons] at h
      obtain ⟨first, -, h⟩ := bind_eq_ok_iff.1 h
      obtain ⟨later, hlater, h⟩ := bind_eq_ok_iff.1 h
      cases h
      rw [List.length_cons, List.length_cons, ih hlater]

/-- Computations that fail alike or give related results. -/
inductive Agree {ε α β : Type} (R : α → β → Prop) : Except ε α → Except ε β → Prop
  | error (e : ε) : Agree R (.error e) (.error e)
  | ok {a : α} {b : β} (h : R a b) : Agree R (.ok a) (.ok b)

namespace Agree

variable {ε α β γ δ : Type} {R : α → β → Prop} {S : γ → δ → Prop} {x : Except ε α} {y : Except ε β}

theorem bind {f : α → Except ε γ} {g : β → Except ε δ} (h : Agree R x y)
    (hstep : ∀ a b, R a b → Agree S (f a) (g b)) : Agree S (x >>= f) (y >>= g) := by
  cases h with
  | error e => exact .error e
  | ok hab => exact hstep _ _ hab

theorem foldlM {ι : Type} {f : α → ι → Except ε α} {g : β → ι → Except ε β} {a : α} {b : β} (h : R a b)
    (hstep : ∀ a b i, R a b → Agree R (f a i) (g b i)) (l : List ι) :
    Agree R (l.foldlM f a) (l.foldlM g b) := by
  induction l generalizing a b with
  | nil => exact .ok h
  | cons i rest ih =>
      rw [List.foldlM_cons, List.foldlM_cons]
      exact (hstep a b i h).bind fun _ _ hab => ih hab

end Agree

namespace Outcome

variable {ε δ α β : Type} {x : Outcome ε α} {a : α} {e : ε}

@[simp] theorem liftM_eq_ok_iff {x : Checked α} :
    (liftM x : Outcome ε α) = .ok a ↔ x = .ok a := by
  cases x with
  | error f =>
      constructor <;> intro h <;> cases h
  | ok b =>
      constructor
      · intro h
        cases h
        rfl
      · intro h
        cases h
        rfl

@[simp] theorem refuse_ne_ok :
    (refuse e : Outcome ε α) ≠ .ok a := by
  intro h
  cases h

/-- A check that refuses comes first. -/
theorem guard_eq_ok_iff {p : Prop} [Decidable p] {k : Unit → Outcome ε α} :
    (if p then refuse e >>= k else k ()) = .ok a ↔ ¬p ∧ k () = .ok a := by
  by_cases h : p
  · simp only [h, if_true, bind_eq_ok_iff, refuse_ne_ok, not_true_eq_false, false_and, exists_false]
  · simp only [h, if_false, not_false_eq_true, true_and]

@[simp] theorem ofOption_eq_ok_iff {x : Option α} :
    ofOption e x = .ok a ↔ x = some a := by
  cases x with
  | none =>
      constructor <;> intro h <;> cases h
  | some b => simp [ofOption]

@[simp] theorem mapRefusal_eq_ok_iff {g : ε → δ} :
    mapRefusal g x = .ok a ↔ x = .ok a := by
  rcases x with (f | e) | b <;> simp [mapRefusal]

@[simp] theorem settle_eq_ok_ok_iff :
    settle x = .ok (.ok a) ↔ x = .ok a := by
  rcases x with (f | e) | b <;> simp [settle]

@[simp] theorem settle_eq_ok_error_iff :
    settle x = .ok (.error e) ↔ x = .error (.refused e) := by
  rcases x with (f | e) | b <;> simp [settle]

@[simp] theorem settle_eq_error_iff {f : Fault} :
    settle x = .error f ↔ x = .error (.fault f) := by
  rcases x with (f' | e) | b <;> simp [settle]

theorem settle_agree_iff {R : α → β → Prop} {y : Outcome ε β} :
    Agree (Agree R) (settle x) (settle y) ↔ Agree R x y := by
  constructor
  · intro h
    generalize hx : settle x = first, hy : settle y = second at h
    cases h with
    | error f =>
        rw [settle_eq_error_iff.1 hx, settle_eq_error_iff.1 hy]
        exact .error _
    | ok h =>
        cases h with
        | error e =>
            rw [settle_eq_ok_error_iff.1 hx, settle_eq_ok_error_iff.1 hy]
            exact .error _
        | ok hab =>
            rw [settle_eq_ok_ok_iff.1 hx, settle_eq_ok_ok_iff.1 hy]
            exact .ok hab
  · intro h
    cases h with
    | error stop =>
        cases stop with
        | fault f => exact .error f
        | refused e => exact .ok (.error e)
    | ok hab => exact .ok (.ok hab)

@[simp] theorem toOption_eq_ok_some_iff :
    toOption x = .ok (some a) ↔ x = .ok a := by
  rcases x with (f | e) | b <;> simp [toOption]

end Outcome

end SurfaceFabric
