import SurfaceFabric.Proofs.Outcome

/-!
How a computation may fail. `FailsOnly P x` says that every failure of `x` is one that `P` allows, and
nothing about its results; every construct has a rule, so what a whole computation may fail with is put
together from its steps, each of which may use that the earlier ones ended well.

Two kinds of failure are told apart. A fault is allowed within bounds `B` if these do not rule it out: with
`B` given, no number leaves its word and only segment numbers may run out. A refusal is allowed if it is of a
given kind. One pass over a computation then says both what it may refuse, for `B` false, and that its
arithmetic is safe, for `B` true.
-/

namespace SurfaceFabric

def FailsOnly {σ α : Type} (P : σ → Prop) (x : Except σ α) : Prop := ∀ e, x = .error e → P e

/-- Within the bounds `B` no fault is left but that segment numbers run out. -/
def Fault.Allowed (B : Prop) (f : Fault) : Prop := B → f = .idsExhausted

def Stop.Allowed {ε : Type} (B : Prop) (Q : ε → Prop) : Stop ε → Prop
  | .fault f => f.Allowed B
  | .refused e => Q e

namespace FailsOnly

variable {σ α β ε δ : Type} {P P' : σ → Prop} {B : Prop} {Q : ε → Prop} {x : Except σ α}

theorem of_eq_ok {a : α} (h : x = .ok a) : FailsOnly P x := by
  rintro e he
  rw [h] at he
  cases he

theorem ok (a : α) : FailsOnly P (.ok a : Except σ α) := of_eq_ok rfl

theorem pure (a : α) : FailsOnly P (Pure.pure a : Except σ α) := of_eq_ok rfl

theorem error {e : σ} (h : P e) : FailsOnly P (.error e : Except σ α) := by
  rintro _ ⟨⟩
  exact h

theorem mono (h : FailsOnly P x) (himp : ∀ e, P e → P' e) : FailsOnly P' x :=
  fun e he => himp e (h e he)

theorem bind {f : α → Except σ β} (h : FailsOnly P x) (hstep : ∀ a, x = .ok a → FailsOnly P (f a)) :
    FailsOnly P (x >>= f) := by
  intro e he
  cases x with
  | error e' =>
      cases he
      exact h e rfl
  | ok a => exact hstep a rfl e he

theorem ite {p : Prop} [Decidable p] {y : Except σ α} (hx : p → FailsOnly P x) (hy : ¬p → FailsOnly P y) :
    FailsOnly P (if p then x else y) := by
  by_cases hp : p
  · rw [if_pos hp]
    exact hx hp
  · rw [if_neg hp]
    exact hy hp

theorem mapM {f : α → Except σ β} {l : List α} (h : ∀ a ∈ l, FailsOnly P (f a)) :
    FailsOnly P (l.mapM f) := by
  induction l with
  | nil => exact .ok []
  | cons a rest ih =>
      rw [List.mapM_cons]
      refine (h a List.mem_cons_self).bind fun b _ => ?_
      exact (ih fun a ha => h a (List.mem_cons_of_mem _ ha)).bind fun bs _ => .ok _

/-- A loop that keeps an invariant and whose every step may fail only as allowed. -/
theorem foldlM {f : β → α → Except σ β} (I : β → Prop) {l : List α} {b : β} (hb : I b)
    (hstep : ∀ b, ∀ a ∈ l, I b → FailsOnly P (f b a))
    (hkeep : ∀ b, ∀ a ∈ l, ∀ b', I b → f b a = .ok b' → I b') : FailsOnly P (l.foldlM f b) := by
  induction l generalizing b with
  | nil => exact .ok b
  | cons a rest ih =>
      rw [List.foldlM_cons]
      refine (hstep b a List.mem_cons_self hb).bind fun b' hb' => ?_
      refine ih (hkeep b a List.mem_cons_self b' hb hb') ?_ ?_
      · exact fun b a ha => hstep b a (List.mem_cons_of_mem _ ha)
      · exact fun b a ha => hkeep b a (List.mem_cons_of_mem _ ha)

theorem findSomeM? {f : α → Except σ (Option β)} {l : List α} (h : ∀ a ∈ l, FailsOnly P (f a)) :
    FailsOnly P (l.findSomeM? f) := by
  induction l with
  | nil => exact .ok none
  | cons a rest ih =>
      rw [List.findSomeM?]
      refine (h a List.mem_cons_self).bind fun found _ => ?_
      cases found with
      | none => exact ih fun a ha => h a (List.mem_cons_of_mem _ ha)
      | some b => exact .ok _

/-! ### Faults and refusals -/

theorem lift {x : Checked α} (h : FailsOnly (Fault.Allowed B) x) :
    FailsOnly (Stop.Allowed B Q) (liftM x : Outcome ε α) := by
  rintro stop hstop
  cases x with
  | ok a => cases hstop
  | error f =>
      cases hstop
      exact h f rfl

/-- With the bounds given there is no failure at all. -/
theorem of_bounds {x : Checked α} (h : B → ∃ a, x = .ok a) : FailsOnly (Fault.Allowed B) x := by
  rintro f hf hB
  obtain ⟨a, ha⟩ := h hB
  rw [hf] at ha
  cases ha

theorem refuse {e : ε} (h : Q e) : FailsOnly (Stop.Allowed B Q) (Outcome.refuse e : Outcome ε α) :=
  .error h

/-- Refusals of a wider kind. -/
theorem weaken {R : ε → Prop} {x : Outcome ε α} (h : FailsOnly (Stop.Allowed B Q) x)
    (himp : ∀ e, Q e → R e) : FailsOnly (Stop.Allowed B R) x := by
  refine h.mono ?_
  rintro (f | e) hallowed
  · exact hallowed
  · exact himp e hallowed

/-- A check that refuses comes first. -/
theorem guard {p : Prop} [Decidable p] {e : ε} {k : Unit → Outcome ε α} (h : p → Q e)
    (hk : ¬p → FailsOnly (Stop.Allowed B Q) (k ())) :
    FailsOnly (Stop.Allowed B Q) (if p then Outcome.refuse e >>= k else k ()) :=
  .ite (fun hp => (refuse (h hp)).bind fun _ ha => by cases ha) hk

theorem ofOption {e : ε} {o : Option α} (h : o = none → Q e) :
    FailsOnly (Stop.Allowed B Q) (Outcome.ofOption e o) := by
  cases o with
  | none => exact refuse (h rfl)
  | some a => exact .ok a

theorem mapRefusal {g : ε → δ} {R : δ → Prop} {x : Outcome ε α}
    (h : FailsOnly (Stop.Allowed B fun e => R (g e)) x) :
    FailsOnly (Stop.Allowed B R) (x.mapRefusal g) := by
  rintro stop hstop
  rcases x with (f | e) | a <;> cases hstop
  · exact h _ rfl
  · exact h _ rfl

/-- A refusal that is made an ordinary value leaves faults only. -/
theorem settle {x : Outcome ε α} (h : FailsOnly (Stop.Allowed B Q) x) :
    FailsOnly (Fault.Allowed B) x.settle := by
  intro f hf
  exact h _ (Outcome.settle_eq_error_iff.1 hf)

theorem toOption {x : Outcome ε α} (h : FailsOnly (Stop.Allowed B Q) x) :
    FailsOnly (Fault.Allowed B) x.toOption := by
  rintro f hf
  rcases x with (f' | e) | a <;> cases hf
  exact h _ rfl

/-- What is never refused is not lost when refusals are forgotten. -/
theorem toOption_ne_none {x : Outcome ε α} (h : FailsOnly (Stop.Allowed B fun _ => False) x) :
    x.toOption ≠ .ok none := by
  intro hnone
  rcases x with (f | e) | a
  · cases hnone
  · exact h _ rfl
  · cases hnone

end FailsOnly

/-! ### Arithmetic -/

section Arithmetic

variable {B : Prop} {a b : Nat}

theorem Word.failsOnly_add (h : B → a + b ≤ Word.top) : FailsOnly (Fault.Allowed B) (Word.add a b) := by
  refine .ite (fun _ => .ok _) fun hnot => .error fun hB => ?_
  exact absurd (h hB) hnot

theorem Word.failsOnly_sub (h : B → b ≤ a) : FailsOnly (Fault.Allowed B) (Word.sub a b) := by
  refine .ite (fun _ => .ok _) fun hnot => .error fun hB => ?_
  exact absurd (h hB) hnot

theorem Word.failsOnly_mul (h : B → a * b ≤ Word.top) : FailsOnly (Fault.Allowed B) (Word.mul a b) := by
  refine .ite (fun _ => .ok _) fun hnot => .error fun hB => ?_
  exact absurd (h hB) hnot

theorem Long.failsOnly_add (h : B → a + b ≤ Long.top) : FailsOnly (Fault.Allowed B) (Long.add a b) := by
  refine .ite (fun _ => .ok _) fun hnot => .error fun hB => ?_
  exact absurd (h hB) hnot

theorem Long.failsOnly_mul (h : B → a * b ≤ Long.top) : FailsOnly (Fault.Allowed B) (Long.mul a b) := by
  refine .ite (fun _ => .ok _) fun hnot => .error fun hB => ?_
  exact absurd (h hB) hnot

end Arithmetic

end SurfaceFabric
