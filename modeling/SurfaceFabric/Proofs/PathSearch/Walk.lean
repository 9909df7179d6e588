import SurfaceFabric.Proofs.Routing.Path

/-!
Walks and what the search makes of them. A walk may come back to cells, its own ends included; a path
that the search finds does not. Only cells that hold operands are upright, and these are never passable,
so a walk that comes back to one of its ends may leave it by any step, as the search does.
-/

namespace SurfaceFabric

theorem Cell.NextTo.side_unique {c d : Cell} {side side' : Side} (h : c.NextTo side d)
    (h' : c.NextTo side' d) : side = side' := by
  by_contra hne
  cases side <;> cases side' <;> simp [Cell.NextTo] at h h' hne <;> omega

namespace PathQuery

variable {q : PathQuery} {source target : Cell}

/-- The cells of a walk between its two ends. Every step leads to a neighbouring cell, and the first and the
last are vertical where the end is upright. -/
structure Walk (q : PathQuery) (source target : Cell) (inner : List Cell) : Prop where
  chain : (source :: (inner ++ [target])).IsChain fun c d => ∃ side, c.NextTo side d
  passable : ∀ c ∈ inner, q.passable c = true
  leaves : q.grid.isVertical source = true → ∀ d ∈ (inner ++ [target]).head?,
    ∃ side, side.isVertical = true ∧ source.NextTo side d
  enters : q.grid.isVertical target = true → ∀ c ∈ (source :: inner).getLast?,
    ∃ side, side.isVertical = true ∧ c.NextTo side target

/-- What a search for a path is to answer: a path if and only if there is a walk, and then one that is a walk
without repetitions. -/
structure Answered (q : PathQuery) (source target : Cell) (answer : Option (List Cell)) : Prop where
  found_iff : (∃ path, answer = some path) ↔ ∃ inner, q.Walk source target inner
  found : ∀ path, answer = some path →
    ∃ inner, path = source :: (inner ++ [target]) ∧ path.Nodup ∧ q.Walk source target inner

theorem isVertical_of_passable {c : Cell} (h : q.passable c = true) : q.grid.isVertical c = false := by
  simp only [passable, Bool.and_eq_true, LockGrid.isRoute] at h
  obtain ⟨⟨hroute, -⟩, -⟩ := h
  unfold LockGrid.isVertical
  cases hp : q.grid.patch? c with
  | none => rfl
  | some p =>
      rw [hp] at hroute
      cases hrole : p.role <;> simp_all [Patch.orientation, Role.isRoute]

theorem inside_of_passable {c : Cell} (h : q.passable c = true) : q.grid.inside c = true := by
  simp only [passable, Bool.and_eq_true, LockGrid.isRoute] at h
  obtain ⟨⟨hroute, -⟩, -⟩ := h
  by_contra hout
  rw [LockGrid.patch?, if_neg hout] at hroute
  cases hroute

/-- A step to a neighbouring cell is one that the search takes, if it is vertical where an upright end asks
for it. -/
theorem steps_of_nextTo {c d : Cell} {side : Side} (hnext : c.NextTo side d)
    (hd : d = target ∧ q.grid.inside target = true ∨ q.passable d = true)
    (hleave : c = source → q.grid.isVertical source = true → side.isVertical = true)
    (henter : d = target → q.grid.isVertical target = true → side.isVertical = true) :
    q.Steps source target c d := by
  have hinside : q.grid.inside d = true := by
    rcases hd with ⟨rfl, hinside⟩ | hpass
    · exact hinside
    · exact inside_of_passable hpass
  refine ⟨side.isVertical, LockGrid.mem_steps_of_nextTo hnext hinside, ?_⟩
  rw [mayStep, Bool.and_eq_true]
  refine ⟨?_, ?_⟩
  · by_cases hc : c = source
    · cases hvertical : q.grid.isVertical source with
      | false => simp
      | true => simp [hleave hc hvertical]
    · simp [hc]
  · split
    · next hdt =>
        cases hvertical : q.grid.isVertical target with
        | false => simp
        | true => simp [henter hdt hvertical]
    · next hdt => exact hd.resolve_left fun hd => hdt hd.1

/-- Along a walk, every step is one that the search takes. -/
theorem reflTransGen_of_chain (ht : q.grid.inside target = true) {inner : List Cell} {c : Cell}
    (hchain : (c :: (inner ++ [target])).IsChain fun c d => ∃ side, c.NextTo side d)
    (hpass : ∀ d ∈ inner, q.passable d = true)
    (hleave : c = source → q.grid.isVertical source = true → ∀ d ∈ (inner ++ [target]).head?,
      ∃ side, side.isVertical = true ∧ c.NextTo side d)
    (henter : q.grid.isVertical target = true → ∀ b ∈ (c :: inner).getLast?,
      ∃ side, side.isVertical = true ∧ b.NextTo side target) :
    Relation.ReflTransGen (q.Steps source target) c target := by
  induction inner generalizing c with
  | nil =>
      rw [List.nil_append, List.isChain_pair] at hchain
      obtain ⟨side, hnext⟩ := hchain
      refine .single (steps_of_nextTo hnext (.inl ⟨rfl, ht⟩) (fun hc hv => ?_) fun _ hv => ?_)
      · obtain ⟨side', hside', hnext'⟩ := hleave hc hv target (by simp)
        rwa [hnext.side_unique hnext']
      · obtain ⟨side', hside', hnext'⟩ := henter hv c (by simp)
        rwa [hnext.side_unique hnext']
  | cons d inner ih =>
      rw [List.cons_append, List.isChain_cons_cons] at hchain
      obtain ⟨⟨side, hnext⟩, hchain⟩ := hchain
      have hd := hpass d List.mem_cons_self
      -- a passable cell is not upright, so an end that is met on the way asks for nothing
      have hfree {e : Cell} (heq : d = e) (hv : q.grid.isVertical e = true) : False := by
        rw [← heq, isVertical_of_passable hd] at hv
        cases hv
      refine .head (steps_of_nextTo hnext (.inr hd) (fun hc hv => ?_) fun heq hv => (hfree heq hv).elim) ?_
      · obtain ⟨side', hside', hnext'⟩ := hleave hc hv d (by simp)
        rwa [hnext.side_unique hnext']
      · refine ih hchain (fun e he => hpass e (List.mem_cons_of_mem _ he)) ?_ fun hv b hb => ?_
        · exact fun heq hv => (hfree heq hv).elim
        · exact henter hv b (by rwa [List.getLast?_cons_cons])

theorem Walk.reaches {inner : List Cell} (h : q.Walk source target inner)
    (ht : q.grid.inside target = true) : Relation.ReflTransGen (q.Steps source target) source target :=
  reflTransGen_of_chain ht h.chain h.passable (fun _ => h.leaves) h.enters

end PathQuery

namespace PathSearch

variable {q : PathQuery} {source target : Cell}

/-- A path that the search finds is a walk. -/
theorem IsPath.walk {inner : List Cell} (h : IsPath q source target (source :: (inner ++ [target]))) :
    q.Walk source target inner where
  chain := h.chain.imp fun _ _ hstep => by
    obtain ⟨side, hnext, -⟩ := hstep.nextTo
    exact ⟨side, hnext⟩
  passable c hc := (h.interior.2 c hc).1
  leaves hv d hd := by
    obtain ⟨side, hnext, hside⟩ := ((List.isChain_cons.1 h.chain).1 d hd).nextTo
    exact ⟨side, hside (.inl ⟨rfl, hv⟩), hnext⟩
  enters hv c hc := by
    have hchain := h.chain
    rw [← List.cons_append, List.isChain_append] at hchain
    obtain ⟨side, hnext, hside⟩ := (hchain.2.2 c hc target (by simp)).nextTo
    exact ⟨side, hside (.inr ⟨rfl, hv⟩), hnext⟩

theorem IsPath.exists_inner {path : List Cell} (h : IsPath q source target path) (hne : source ≠ target) :
    ∃ inner, path = source :: (inner ++ [target]) := by
  refine h.eq_cons_append ?_
  have hhead := h.head
  have hlast := h.last
  cases path with
  | nil => cases hhead
  | cons c rest =>
      cases rest with
      | nil =>
          cases hhead
          cases hlast
          exact absurd rfl hne
      | cons d rest => simp

/-- In whatever order the candidates come up, the search answers as it should. -/
theorem answered_findBy? (score : Nat → Cell → Float) (hs : q.grid.inside source = true)
    (ht : q.grid.inside target = true) (hne : source ≠ target) :
    q.Answered source target (findBy? q score source target) := by
  have hfound : ∀ path, findBy? q score source target = some path →
      ∃ inner, path = source :: (inner ++ [target]) ∧ path.Nodup ∧ q.Walk source target inner := by
    intro path hpath
    have hpath := findBy?_isPath hs hpath
    obtain ⟨inner, rfl⟩ := hpath.exists_inner hne
    exact ⟨inner, rfl, hpath.nodup, hpath.walk⟩
  refine ⟨⟨?_, ?_⟩, hfound⟩
  · rintro ⟨path, hpath⟩
    obtain ⟨inner, -, -, hwalk⟩ := hfound path hpath
    exact ⟨inner, hwalk⟩
  · rintro ⟨inner, hwalk⟩
    exact findBy?_isSome hs (hwalk.reaches ht)

end PathSearch

/-- Between two different cells of a grid the search finds a path without repetitions if and only if there is a
walk, with its own estimate and with any other. -/
theorem search_finds_walks {q : PathQuery} {source target : Cell} (hs : q.grid.inside source = true)
    (ht : q.grid.inside target = true) (hne : source ≠ target) :
    q.Answered source target (PathSearch.find? q source target) ∧
      ∀ score, q.Answered source target (PathSearch.findBy? q score source target) :=
  ⟨PathSearch.answered_findBy? _ hs ht hne, fun score => PathSearch.answered_findBy? score hs ht hne⟩

/-- Two registers over a routing row, whose middle cell is held but is a switch that may be shared. -/
def sharedSwitch : PathQuery where
  grid := ⟨2, 3, #[⟨.register, 0⟩, ⟨.unassigned, 1⟩, ⟨.register, 2⟩, ⟨.route, 3⟩, ⟨.route, 3⟩, ⟨.route, 3⟩],
    [⟨⟨1, 1⟩, ⟨7, 0, 3⟩⟩]⟩
  start := 0
  stop := 3
  blocked := [⟨0, 1⟩]
  relaxed := some ⟨[⟨1, 1⟩], [⟨1, 1⟩], 2, 3⟩

theorem sharedSwitch_crossed : sharedSwitch.grid.isFree ⟨1, 1⟩ 0 3 = false ∧
    ∃ inner, PathSearch.find? sharedSwitch ⟨0, 0⟩ ⟨0, 2⟩ = some (⟨0, 0⟩ :: (inner ++ [⟨0, 2⟩])) ∧
      sharedSwitch.Walk ⟨0, 0⟩ ⟨0, 2⟩ inner := by
  refine ⟨by decide, ?_⟩
  have hs : sharedSwitch.grid.inside ⟨0, 0⟩ = true := by decide
  have ht : sharedSwitch.grid.inside ⟨0, 2⟩ = true := by decide
  obtain ⟨hanswered, -⟩ := search_finds_walks hs ht (by decide)
  have hwalk : sharedSwitch.Walk ⟨0, 0⟩ ⟨0, 2⟩ [⟨1, 0⟩, ⟨1, 1⟩, ⟨1, 2⟩] := by
    refine ⟨?_, by decide, fun _ d hd => ?_, fun _ c hc => ?_⟩
    · simp only [List.cons_append, List.nil_append, List.isChain_cons_cons, List.isChain_singleton, and_true]
      exact ⟨⟨.below, rfl, rfl⟩, ⟨.right, rfl, rfl⟩, ⟨.right, rfl, rfl⟩, ⟨.above, rfl, rfl⟩⟩
    · cases hd
      exact ⟨.below, rfl, rfl, rfl⟩
    · cases hc
      exact ⟨.above, rfl, rfl, rfl⟩
  obtain ⟨path, hpath⟩ := hanswered.found_iff.2 ⟨_, hwalk⟩
  obtain ⟨inner, rfl, -, hinner⟩ := hanswered.found path hpath
  exact ⟨inner, hpath, hinner⟩

end SurfaceFabric
