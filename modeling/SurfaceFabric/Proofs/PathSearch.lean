import Mathlib.Data.List.Chain
import Mathlib.Data.List.Nodup
import Mathlib.Data.List.Perm.Subperm
import Mathlib.Logic.Relation
import SurfaceFabric.PathSearch

/-!
What the path search finds, in whatever order its candidates come up. The newest labels lead from every
labelled cell back to the source by steps of falling cost, so the path read off them has no repetition;
and a search that runs out of candidates has labelled every cell within reach.
-/

namespace SurfaceFabric

namespace LockGrid

@[simp] theorem mem_allCells {height width : Nat} {c : Cell} :
    c ∈ allCells height width ↔ c.y < height ∧ c.x < width := by
  obtain ⟨y, x⟩ := c
  simp [allCells]

@[simp] theorem inside_iff {g : LockGrid} {c : Cell} :
    g.inside c = true ↔ c.y < g.height ∧ c.x < g.width := by
  simp [inside]

theorem nodup_allCells (height width : Nat) : (allCells height width).Nodup := by
  unfold allCells
  refine List.nodup_flatMap.2 ⟨fun y _ => ?_, ?_⟩
  · refine List.Nodup.map ?_ List.nodup_range
    intro a b h
    simpa using h
  · refine List.nodup_range.imp ?_
    intro a b hab
    refine List.disjoint_left.2 ?_
    intro c ha hb
    simp only [List.mem_map] at ha hb
    obtain ⟨_, _, rfl⟩ := ha
    obtain ⟨_, _, h⟩ := hb
    simp only [Cell.mk.injEq] at h
    exact hab h.1.symm

theorem mem_steps {g : LockGrid} {c d : Cell} {vertical : Bool} :
    (d, vertical) ∈ g.steps c ↔
      (vertical = true ∧ d.x = c.x ∧ (d.y + 1 = c.y ∨ d.y = c.y + 1 ∧ d.y < g.height)) ∨
        (vertical = false ∧ d.y = c.y ∧ (d.x + 1 = c.x ∨ d.x = c.x + 1 ∧ d.x < g.width)) := by
  obtain ⟨y, x⟩ := c
  obtain ⟨v, u⟩ := d
  simp only [steps, List.mem_append, List.mem_ite_nil_right, List.mem_singleton, Prod.mk.injEq,
    Cell.mk.injEq]
  cases vertical <;> simp <;> omega

theorem inside_of_mem_steps {g : LockGrid} {c d : Cell} {vertical : Bool} (hc : g.inside c = true)
    (h : (d, vertical) ∈ g.steps c) : g.inside d = true := by
  rw [inside_iff] at hc ⊢
  rw [mem_steps] at h
  omega

theorem ne_of_mem_steps {g : LockGrid} {c d : Cell} {vertical : Bool}
    (h : (d, vertical) ∈ g.steps c) : d ≠ c := by
  rintro rfl
  rw [mem_steps] at h
  omega

end LockGrid

def PathQuery.Steps (q : PathQuery) (source target c d : Cell) : Prop :=
  ∃ vertical, (d, vertical) ∈ q.grid.steps c ∧ q.mayStep source target c (d, vertical) = true

theorem PathQuery.Steps.eq_or_passable {q : PathQuery} {source target c d : Cell}
    (h : q.Steps source target c d) : d = target ∨ q.passable d = true := by
  obtain ⟨vertical, -, h⟩ := h
  by_cases hd : d = target
  · exact .inl hd
  · simp only [mayStep, hd, if_false, Bool.and_eq_true] at h
    exact .inr h.2

namespace PathSearch

variable {q : PathQuery} {score : Nat → Cell → Float} {source target : Cell}
  {c d : Cell} {vertical : Bool} {s : SearchState} {labels : List Label} {l : Label} {unexpanded trail : List Cell}
  {k : Candidate} {others : List Candidate}

theorem popLeast_eq_none_iff {l : List Candidate} : popLeast l = none ↔ l = [] := by
  constructor
  · intro h
    cases l with
    | nil => rfl
    | cons d rest =>
        simp only [popLeast] at h
        split at h
        · simp at h
        · split at h <;> simp at h
  · rintro rfl
    rfl

theorem popLeast_perm {l others : List Candidate} {c : Candidate}
    (h : popLeast l = some (c, others)) : l.Perm (c :: others) := by
  induction l generalizing c others with
  | nil => simp [popLeast] at h
  | cons d rest ih =>
      simp only [popLeast] at h
      split at h
      · next hnone =>
          rw [popLeast_eq_none_iff] at hnone
          simp only [Option.some.injEq, Prod.mk.injEq] at h
          rw [← h.1, ← h.2, hnone]
      · next least tail hsome =>
          split at h
          · simp only [Option.some.injEq, Prod.mk.injEq] at h
            rw [← h.1, ← h.2]
            exact ((ih hsome).cons d).trans (.swap least d tail)
          · simp only [Option.some.injEq, Prod.mk.injEq] at h
            rw [← h.1, ← h.2]

theorem label?_cons (l : Label) (labels : List Label) (c : Cell) :
    label? (l :: labels) c = if l.cell = c then some l else label? labels c := by
  by_cases h : l.cell = c <;> simp [label?, h]

theorem mem_of_label? (h : label? labels c = some l) :
    l ∈ labels ∧ l.cell = c :=
  ⟨List.mem_of_find?_eq_some h, by simpa using List.find?_some h⟩

/-- Every labelled cell but the source has a labelled parent of lower cost, one step away. -/
structure Labelled (q : PathQuery) (source target : Cell) (labels : List Label) : Prop where
  source_label : label? labels source = some ⟨source, 0, none⟩
  has_parent : ∀ {c l}, label? labels c = some l → c ≠ source →
    ∃ p lp, l.parent = some p ∧ q.Steps source target p c ∧
      label? labels p = some lp ∧ lp.cost < l.cost

theorem Labelled.cons (h : Labelled q source target labels) {c d : Cell}
    {lc : Label} (hc : label? labels c = some lc) (hstep : q.Steps source target c d)
    (hcheaper : ∀ ld, label? labels d = some ld → lc.cost + 1 < ld.cost) :
    Labelled q source target (⟨d, lc.cost + 1, some c⟩ :: labels) := by
  have hne : d ≠ c := by
    obtain ⟨vertical, hmem, -⟩ := hstep
    exact LockGrid.ne_of_mem_steps hmem
  have hsource : d ≠ source := by
    rintro rfl
    have := hcheaper _ h.source_label
    simp at this
  refine ⟨?_, ?_⟩
  · rw [label?_cons, if_neg hsource]
    exact h.source_label
  · intro x l hx hxs
    rw [label?_cons] at hx
    split at hx
    · next hdx =>
        cases hx
        subst hdx
        refine ⟨c, lc, rfl, hstep, ?_, Nat.lt_succ_self _⟩
        rw [label?_cons, if_neg hne]
        exact hc
    · obtain ⟨p, lp, hp, hs, hlp, hlt⟩ := h.has_parent hx hxs
      by_cases hdp : d = p
      · -- the parent has become cheaper
        subst hdp
        refine ⟨d, _, hp, hs, by rw [label?_cons, if_pos rfl], ?_⟩
        have := hcheaper _ hlp
        simp only
        omega
      · refine ⟨p, lp, hp, hs, ?_, hlt⟩
        rw [label?_cons, if_neg hdp]
        exact hlp

/-- Cells from a labelled one back to the source, each the parent of the one before. -/
inductive Trail (source : Cell) (labels : List Label) : Cell → List Cell → Prop
  | source : Trail source labels source [source]
  | step {c p : Cell} {l : Label} {trail : List Cell} : c ≠ source → label? labels c = some l →
      l.parent = some p → Trail source labels p trail → Trail source labels c (c :: trail)

theorem Trail.head (h : Trail source labels c trail) : trail.head? = some c := by
  cases h <;> rfl

theorem Trail.getLast (h : Trail source labels c trail) : trail.getLast? = some source := by
  induction h with
  | source => rfl
  | step _ _ _ ht ih =>
      cases ht with
      | source => rfl
      | step => simpa [List.getLast?_cons_cons] using ih

theorem traceBack_eq_of_trail (hsource : label? labels source = some ⟨source, 0, none⟩)
    {c : Cell} {trail : List Cell} (h : Trail source labels c trail) {n : Nat}
    (hn : trail.length ≤ n + 1) : traceBack labels n c = trail := by
  induction h generalizing n with
  | source => cases n <;> simp [traceBack, hsource]
  | @step c p l trail _ hl hp ht ih =>
      cases n with
      | zero => cases ht <;> simp at hn
      | succ n =>
          rw [List.length_cons] at hn
          simp [traceBack, hl, hp, ih (n := n) (by omega)]

theorem Labelled.exists_trail (h : Labelled q source target labels)
    {c : Cell} {l : Label} (hc : label? labels c = some l) :
    ∃ trail, Trail source labels c trail ∧ trail.Nodup ∧
      trail.IsChain (fun a b => q.Steps source target b a) ∧
      ∀ d ∈ trail, ∃ ld, label? labels d = some ld ∧ ld.cost ≤ l.cost := by
  induction hk : l.cost using Nat.strong_induction_on generalizing c l with
  | _ k ih =>
      by_cases hcs : c = source
      · subst hcs
        refine ⟨[c], .source, by simp, by simp, ?_⟩
        intro d hd
        rw [List.mem_singleton.1 hd]
        exact ⟨l, hc, hk.le⟩
      · obtain ⟨p, lp, hp, hs, hlp, hlt⟩ := h.has_parent hc hcs
        obtain ⟨trail, ht, hnodup, hchain, hcost⟩ := ih lp.cost (by omega) hlp rfl
        refine ⟨c :: trail, .step hcs hc hp ht, ?_, ?_, ?_⟩
        · refine List.nodup_cons.2 ⟨?_, hnodup⟩
          intro hmem
          obtain ⟨ld, hld, hle⟩ := hcost c hmem
          rw [hc] at hld
          cases hld
          omega
        · refine List.IsChain.cons hchain ?_
          intro y hy
          rw [ht.head] at hy
          cases hy
          exact hs
        · intro d hd
          rcases List.mem_cons.1 hd with rfl | hd
          · exact ⟨l, hc, hk.le⟩
          · obtain ⟨ld, hld, hle⟩ := hcost d hd
            exact ⟨ld, hld, by omega⟩

/-- A path without repetitions from source to target, by steps that the query allows. -/
structure IsPath (q : PathQuery) (source target : Cell) (path : List Cell) : Prop where
  head : path.head? = some source
  last : path.getLast? = some target
  nodup : path.Nodup
  chain : path.IsChain (q.Steps source target)

theorem Labelled.isPath (h : Labelled q source target labels) {l : Label} (ht : label? labels target = some l) :
    IsPath q source target (traceBack labels labels.length target).reverse := by
  obtain ⟨trail, htrail, hnodup, hchain, hcost⟩ := h.exists_trail ht
  have hsub : trail ⊆ labels.map Label.cell := by
    intro d hd
    obtain ⟨ld, hld, -⟩ := hcost d hd
    obtain ⟨hmem, rfl⟩ := mem_of_label? hld
    exact List.mem_map_of_mem hmem
  have hlength : trail.length ≤ labels.length := by
    simpa using (hnodup.subperm hsub).length_le
  rw [traceBack_eq_of_trail h.source_label htrail (by omega)]
  refine ⟨?_, ?_, List.nodup_reverse.2 hnodup, List.isChain_reverse.2 hchain⟩
  · rw [List.head?_reverse, htrail.getLast]
  · rw [List.getLast?_reverse, htrail.head]

/-- Where a search stands. Every labelled cell is a candidate or has been expanded, and what lies one
step from an expanded cell is labelled, but for the steps that are still owed. -/
structure Searching (q : PathQuery) (source target : Cell) (unexpanded : List Cell)
    (owed : Cell → Cell × Bool → Prop) (s : SearchState) : Prop where
  nodup : unexpanded.Nodup
  labelled : Labelled q source target s.labels
  inside : ∀ c l, label? s.labels c = some l → q.grid.inside c = true
  candidate : ∀ k ∈ s.frontier, ∃ l, label? s.labels k.cell = some l
  pending : ∀ c l, label? s.labels c = some l → (∃ k ∈ s.frontier, k.cell = c) ∨ c ∉ unexpanded
  expanded : ∀ c, q.grid.inside c = true → c ∉ unexpanded → c ≠ target ∧
    ∀ step ∈ q.grid.steps c, q.mayStep source target c step = true →
      (∃ l, label? s.labels step.1 = some l) ∨ owed c step

/-- A step is no longer owed once its cell has a label or it turns out not to be allowed. -/
theorem Searching.paid {step : Cell × Bool} {rest : List (Cell × Bool)} {labels' : List Label}
    (h : Searching q source target unexpanded (fun d e => d = c ∧ e ∈ step :: rest) s)
    (hkeep : ∀ x, (∃ l, label? s.labels x = some l) → ∃ l, label? labels' x = some l)
    (hstep : q.mayStep source target c step = true → ∃ l, label? labels' step.1 = some l) (x : Cell)
    (hx : q.grid.inside x = true) (hxu : x ∉ unexpanded) : x ≠ target ∧
      ∀ e ∈ q.grid.steps x, q.mayStep source target x e = true →
        (∃ l, label? labels' e.1 = some l) ∨ x = c ∧ e ∈ rest := by
  refine ⟨(h.expanded x hx hxu).1, ?_⟩
  intro e he hmay
  rcases (h.expanded x hx hxu).2 e he hmay with hl | ⟨rfl, hmem⟩
  · exact .inl (hkeep _ hl)
  · rcases List.mem_cons.1 hmem with rfl | hmem
    · exact .inl (hstep hmay)
    · exact .inr ⟨rfl, hmem⟩

theorem Searching.reach {step : Cell × Bool} {rest : List (Cell × Bool)}
    (h : Searching q source target unexpanded (fun d e => d = c ∧ e ∈ step :: rest) s)
    (hc : ∃ l, label? s.labels c = some l) (hstep : step ∈ q.grid.steps c) :
    Searching q source target unexpanded (fun d e => d = c ∧ e ∈ rest)
      (reach q score source target c s step) := by
  obtain ⟨lc, hlc⟩ := hc
  obtain ⟨d, vertical⟩ := step
  unfold PathSearch.reach
  simp only [hlc, Option.map_some, Option.getD_some]
  split
  · next hgo =>
      rw [Bool.and_eq_true] at hgo
      have hlabel (x : Cell) : label? (⟨d, lc.cost + 1, some c⟩ :: s.labels) x =
          if d = x then some ⟨d, lc.cost + 1, some c⟩ else label? s.labels x := label?_cons _ _ _
      have hnew : ∃ l, label? (⟨d, lc.cost + 1, some c⟩ :: s.labels) d = some l := ⟨_, by rw [hlabel, if_pos rfl]⟩
      have hkeep (x : Cell) (hx : ∃ l, label? s.labels x = some l) :
          ∃ l, label? (⟨d, lc.cost + 1, some c⟩ :: s.labels) x = some l := by
        rw [hlabel]
        split
        · exact ⟨_, rfl⟩
        · exact hx
      refine ⟨h.nodup, h.labelled.cons hlc ⟨vertical, hstep, hgo.1⟩ fun ld hld => ?_, fun x l hx => ?_,
        fun k hk => ?_, fun x l hx => ?_, h.paid hkeep fun _ => hnew⟩
      · simpa [hld] using hgo.2
      · rw [hlabel] at hx
        split at hx
        · next hdx => exact hdx ▸ LockGrid.inside_of_mem_steps (h.inside c lc hlc) hstep
        · exact h.inside x l hx
      · rcases List.mem_append.1 hk with hk | hk
        · exact hkeep _ (h.candidate k hk)
        · rw [List.mem_singleton.1 hk]
          exact hnew
      · rw [hlabel] at hx
        split at hx
        · next hdx => exact .inl ⟨⟨d, score (lc.cost + 1) d⟩, by simp, hdx⟩
        · rcases h.pending x l hx with ⟨k, hk, hkx⟩ | hx
          · exact .inl ⟨k, List.mem_append_left _ hk, hkx⟩
          · exact .inr hx
  · next hgo =>
      refine ⟨h.nodup, h.labelled, h.inside, h.candidate, h.pending, h.paid (fun _ hx => hx) fun hmay => ?_⟩
      -- the step is allowed, so it was left out because its cell has a label already
      cases hd : label? s.labels d with
      | none => simp [hd, hmay] at hgo
      | some l => exact ⟨l, rfl⟩

theorem reach_labels_isSome {c x : Cell} {step : Cell × Bool} (hx : ∃ l, label? s.labels x = some l) :
    ∃ l, label? (reach q score source target c s step).labels x = some l := by
  unfold reach
  dsimp only
  split
  · rw [label?_cons]
    split
    · exact ⟨_, rfl⟩
    · exact hx
  · exact hx

theorem Searching.reachAll {steps : List (Cell × Bool)}
    (h : Searching q source target unexpanded (fun d e => d = c ∧ e ∈ steps) s)
    (hc : ∃ l, label? s.labels c = some l) (hsteps : ∀ e ∈ steps, e ∈ q.grid.steps c) :
    Searching q source target unexpanded (fun _ _ => False)
      (steps.foldl (PathSearch.reach q score source target c) s) := by
  induction steps generalizing s with
  | nil =>
      simp only [List.not_mem_nil, and_false] at h
      exact h
  | cons e rest ih =>
      exact ih (h.reach hc (hsteps e (by simp))) (reach_labels_isSome hc)
        fun x hx => hsteps x (by simp [hx])

/-- Once a candidate is taken, the labelled cells are those of the other candidates, its own and expanded ones. -/
theorem Searching.pop (h : Searching q source target unexpanded (fun _ _ => False) s)
    (hpop : popLeast s.frontier = some (k, others)) :
    (∀ j ∈ k :: others, ∃ l, label? s.labels j.cell = some l) ∧ ∀ c l, label? s.labels c = some l →
      (∃ j ∈ others, j.cell = c) ∨ c = k.cell ∨ c ∉ unexpanded := by
  have hperm := popLeast_perm hpop
  refine ⟨fun j hj => h.candidate j (hperm.mem_iff.2 hj), fun c l hc => ?_⟩
  rcases h.pending c l hc with ⟨j, hj, rfl⟩ | hc
  · rcases List.mem_cons.1 (hperm.mem_iff.1 hj) with rfl | hj
    · exact .inr (.inl rfl)
    · exact .inl ⟨j, hj, rfl⟩
  · exact .inr (.inr hc)

/-- Expanding a cell pays off its steps one by one. -/
theorem Searching.expand (h : Searching q source target unexpanded (fun _ _ => False) s)
    (hpop : popLeast s.frontier = some (k, others)) (htarget : k.cell ≠ target) :
    Searching q source target (unexpanded.erase k.cell) (fun _ _ => False)
      ((q.grid.steps k.cell).foldl (PathSearch.reach q score source target k.cell)
        { s with frontier := others }) := by
  obtain ⟨hlabels, hcells⟩ := h.pop hpop
  have herase (c : Cell) : c ∉ unexpanded.erase k.cell ↔ c = k.cell ∨ c ∉ unexpanded := by
    rw [h.nodup.mem_erase_iff]
    tauto
  refine Searching.reachAll ⟨h.nodup.erase _, h.labelled, h.inside, ?_, ?_, ?_⟩ (hlabels k (by simp)) fun e he => he
  · exact fun j hj => hlabels j (List.mem_cons_of_mem _ hj)
  · intro c l hc
    rw [herase]
    exact hcells c l hc
  · intro c hc hcu
    rcases (herase c).1 hcu with rfl | hcu
    · exact ⟨htarget, fun step hstep _ => .inr ⟨rfl, hstep⟩⟩
    · refine ⟨(h.expanded c hc hcu).1, ?_⟩
      intro step hstep hmay
      rcases (h.expanded c hc hcu).2 step hstep hmay with hl | hfalse
      · exact .inl hl
      · exact hfalse.elim

theorem Searching.drop (h : Searching q source target unexpanded (fun _ _ => False) s)
    (hpop : popLeast s.frontier = some (k, others)) (hk : k.cell ∉ unexpanded) :
    Searching q source target unexpanded (fun _ _ => False) { s with frontier := others } := by
  obtain ⟨hlabels, hcells⟩ := h.pop hpop
  refine ⟨h.nodup, h.labelled, h.inside, fun j hj => hlabels j (List.mem_cons_of_mem _ hj), fun c l hc => ?_,
    h.expanded⟩
  exact (hcells c l hc).imp_right fun hc => hc.elim (fun heq => heq ▸ hk) id

/-- Without candidates left, whatever can be reached is labelled and expanded. -/
theorem Searching.expanded_of_reachable
    (h : Searching q source target unexpanded (fun _ _ => False) s) (hnone : s.frontier = [])
    (hc : Relation.ReflTransGen (q.Steps source target) source c) :
    q.grid.inside c = true ∧ c ∉ unexpanded := by
  have hlabelled (d : Cell) (l : Label) (hd : label? s.labels d = some l) :
      q.grid.inside d = true ∧ d ∉ unexpanded := by
    refine ⟨h.inside d l hd, ?_⟩
    rcases h.pending d l hd with ⟨k, hk, -⟩ | hd
    · simp [hnone] at hk
    · exact hd
  induction hc with
  | refl => exact hlabelled source _ h.labelled.source_label
  | @tail b d _ hbd ih =>
      obtain ⟨vertical, hstep, hmay⟩ := hbd
      rcases (h.expanded b ih.1 ih.2).2 _ hstep hmay with ⟨l, hl⟩ | hfalse
      · exact hlabelled d l hl
      · exact hfalse.elim

theorem explore_spec (unexpanded : List Cell) (s : SearchState)
    (h : Searching q source target unexpanded (fun _ _ => False) s) :
    (∀ labels, explore q score source target unexpanded s = some labels →
      Labelled q source target labels ∧ ∃ l, label? labels target = some l) ∧
    (explore q score source target unexpanded s = none →
      ¬Relation.ReflTransGen (q.Steps source target) source target) := by
  induction unexpanded, s using explore.induct q score source target with
  | case1 unexpanded s hnone =>
      have heq : explore q score source target unexpanded s = none := by
        rw [explore]
        split <;> simp_all
      refine ⟨fun labels hlabels => ?_, fun _ hreach => ?_⟩
      · simp [heq] at hlabels
      · obtain ⟨hinside, hexpanded⟩ :=
          h.expanded_of_reachable (popLeast_eq_none_iff.1 hnone) hreach
        exact (h.expanded target hinside hexpanded).1 rfl
  | case2 unexpanded s c others hpop htarget =>
      have heq : explore q score source target unexpanded s = some s.labels := by
        rw [explore]
        split <;> simp_all
      refine ⟨fun labels hlabels => ?_, fun hnone => ?_⟩
      · rw [heq] at hlabels
        cases hlabels
        exact ⟨h.labelled, htarget ▸ h.candidate c ((popLeast_perm hpop).mem_iff.2 (by simp))⟩
      · simp [heq] at hnone
  | case3 unexpanded s c others hpop htarget hmem ih =>
      have heq : explore q score source target unexpanded s =
          explore q score source target (unexpanded.erase c.cell)
            ((q.grid.steps c.cell).foldl (reach q score source target c.cell)
              { s with frontier := others }) := by
        rw [explore]
        split <;> simp_all
      rw [heq]
      exact ih (h.expand hpop htarget)
  | case4 unexpanded s c others hpop htarget hmem ih =>
      have heq : explore q score source target unexpanded s =
          explore q score source target unexpanded { s with frontier := others } := by
        rw [explore]
        split <;> simp_all
      rw [heq]
      exact ih (h.drop hpop hmem)

theorem searching_start (hsource : q.grid.inside source = true) :
    Searching q source target q.grid.cells (fun _ _ => False)
      ⟨[⟨source, 0, none⟩], [⟨source, score 0 source⟩]⟩ := by
  have hlabel (c : Cell) : label? [⟨source, 0, none⟩] c =
      if source = c then some ⟨source, 0, none⟩ else none := label?_cons _ _ _
  refine ⟨LockGrid.nodup_allCells _ _, ⟨by rw [hlabel, if_pos rfl], ?_⟩, ?_, ?_, ?_, ?_⟩
  · intro c l hc hne
    rw [hlabel, if_neg (Ne.symm hne)] at hc
    cases hc
  · intro c l hc
    rw [hlabel] at hc
    split at hc
    · next heq => exact heq ▸ hsource
    · cases hc
  · intro k hk
    rw [List.mem_singleton.1 hk]
    exact ⟨_, by rw [hlabel, if_pos rfl]⟩
  · intro c l hc
    rw [hlabel] at hc
    split at hc
    · next heq => exact .inl ⟨_, List.mem_singleton_self _, heq⟩
    · cases hc
  · intro c hc hcu
    rw [LockGrid.inside_iff] at hc
    exact absurd (LockGrid.mem_allCells.2 hc) hcu

theorem findBy?_isPath {path : List Cell} (hsource : q.grid.inside source = true)
    (h : findBy? q score source target = some path) : IsPath q source target path := by
  obtain ⟨labels, hlabels, rfl⟩ := Option.map_eq_some_iff.1 h
  obtain ⟨hlabelled, l, hl⟩ := (explore_spec _ _ (searching_start hsource)).1 labels hlabels
  exact hlabelled.isPath hl

theorem findBy?_isSome (hsource : q.grid.inside source = true)
    (hreach : Relation.ReflTransGen (q.Steps source target) source target) :
    ∃ path, findBy? q score source target = some path := by
  unfold findBy?
  cases hexplore : explore q score source target q.grid.cells
      ⟨[⟨source, 0, none⟩], [⟨source, score 0 source⟩]⟩ with
  | none => exact absurd hreach ((explore_spec _ _ (searching_start hsource)).2 hexplore)
  | some labels => exact ⟨_, rfl⟩

theorem exists_rel_of_isChain_cons {α : Type} {r : α → α → Prop} {a c : α} {l : List α}
    (h : (a :: l).IsChain r) (hc : c ∈ l) : ∃ b, r b c := by
  induction l generalizing a with
  | nil => simp at hc
  | cons b l ih =>
      rw [List.isChain_cons_cons] at h
      rcases List.mem_cons.1 hc with rfl | hc
      · exact ⟨a, h.1⟩
      · exact ih h.2 hc

theorem IsPath.eq_cons_append {path : List Cell} (h : IsPath q source target path)
    (hlength : 2 ≤ path.length) : ∃ inner, path = source :: (inner ++ [target]) := by
  cases path with
  | nil => simp at hlength
  | cons a rest =>
      cases h.head
      rcases List.eq_nil_or_concat rest with rfl | ⟨inner, b, rfl⟩
      · simp at hlength
      · have hlast := h.last
        rw [List.concat_eq_append, ← List.cons_append, List.getLast?_concat] at hlast
        cases hlast
        exact ⟨inner, by rw [List.concat_eq_append]⟩

/-- Between its ends a path keeps to passable cells and meets neither end again. -/
theorem IsPath.interior {inner : List Cell} (h : IsPath q source target (source :: (inner ++ [target]))) :
    inner.Nodup ∧ ∀ c ∈ inner, q.passable c = true ∧ c ≠ source ∧ c ≠ target := by
  obtain ⟨hsource, hnodup⟩ := List.nodup_cons.1 h.nodup
  obtain ⟨hinner, -, htarget⟩ := List.nodup_append.1 hnodup
  refine ⟨hinner, ?_⟩
  intro c hc
  have hct : c ≠ target := htarget c hc target (by simp)
  obtain ⟨b, hb⟩ := exists_rel_of_isChain_cons h.chain (List.mem_append_left _ hc)
  refine ⟨hb.eq_or_passable.resolve_left hct, ?_, hct⟩
  rintro rfl
  exact hsource (List.mem_append_left _ hc)

end PathSearch

end SurfaceFabric
