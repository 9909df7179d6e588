import SurfaceFabric.Proofs.Routing.Admission

/-!
Plans of locks. A leg that crosses two switches is held for the whole gate up to the first and from
after the last of them, and for a single window in between. What a gate locks twice it locks alike.
-/

namespace SurfaceFabric

namespace RoutingJob

variable {job : RoutingJob} {n start stop : Nat}

theorem window_spec (job : RoutingJob) (h : start < stop) :
    start ≤ (job.window start stop).1 ∧ (job.window start stop).1 < (job.window start stop).2 ∧
      (job.window start stop).2 ≤ stop := by
  unfold window
  split <;> dsimp only <;> omega

theorem span?_spec {inner : List Cell} {i j : Nat}
    (h : job.span? inner = some (i, j)) :
    i < j ∧ (∃ a ∈ job.switches, inner[i]? = some a) ∧ ∃ b ∈ job.switches, inner[j]? = some b := by
  simp only [span?, Option.bind_eq_bind, Option.bind_eq_some_iff] at h
  obtain ⟨first, hfirst, last, hlast, h⟩ := h
  split at h
  · next hlt =>
      simp only [Option.some.injEq, Prod.mk.injEq] at h
      obtain ⟨rfl, rfl⟩ := h
      have hswitch (k : Nat)
          (hk : k ∈ (inner.zipIdx.filter fun p => p.1 ∈ job.switches).map Prod.snd) :
          ∃ a ∈ job.switches, inner[k]? = some a := by
        simp only [List.mem_map, List.mem_filter, decide_eq_true_eq, Prod.exists, exists_eq_right,
          List.mem_zipIdx_iff_getElem?] at hk
        obtain ⟨a, hget, hmem⟩ := hk
        exact ⟨a, hmem, hget⟩
      exact ⟨hlt, hswitch _ (List.mem_of_head? hfirst), hswitch _ (List.mem_of_getLast? hlast)⟩
  · cases h

theorem take_drop_eq_cons_append {inner : List Cell} {i j : Nat} {a b : Cell} (hij : i < j)
    (ha : inner[i]? = some a) (hb : inner[j]? = some b) :
    ∃ mid, (inner.take (j + 1)).drop i = a :: (mid ++ [b]) ∧
      inner = inner.take i ++ (a :: (mid ++ [b])) ++ inner.drop (j + 1) := by
  obtain ⟨hi, rfl⟩ := List.getElem?_eq_some_iff.1 ha
  obtain ⟨hj, rfl⟩ := List.getElem?_eq_some_iff.1 hb
  have hbridge : (inner.take (j + 1)).drop i =
      inner[i] :: ((inner.take j).drop (i + 1) ++ [inner[j]]) := by
    rw [List.take_succ_eq_append_getElem hj, List.drop_append_of_le_length (by simp; omega),
      List.drop_eq_getElem_cons (by simp; omega)]
    simp
  refine ⟨_, hbridge, ?_⟩
  have htake : inner.take i = (inner.take (j + 1)).take i := by
    rw [List.take_take, Nat.min_eq_left (by omega)]
  rw [← hbridge, htake, List.take_append_drop, List.take_append_drop]

/-- What becomes of one leg: it is held as a whole, or bridged between two switches. -/
theorem planLeg_cases (job : RoutingJob) (n start stop : Nat) (teleporting : Bool)
    (inner : List Cell) :
    job.planLeg n start stop teleporting inner = ⟨inner.map fun c => ⟨c, start, stop⟩, [], []⟩ ∨
      ∃ before a mid b after, inner = before ++ (a :: (mid ++ [b])) ++ after ∧
        a ∈ job.switches ∧ b ∈ job.switches ∧
        job.planLeg n start stop teleporting inner =
          ⟨(before.map fun c => ⟨c, start, stop⟩)
              ++ (mid.map fun c => ⟨c, (job.window start stop).1, (job.window start stop).2⟩)
              ++ after.map fun c => ⟨c, start, stop⟩,
            [⟨[n], (a :: (mid ++ [b])).filter (· ∈ job.switches), a :: (mid ++ [b]),
              (job.window start stop).1, (job.window start stop).2⟩],
            [⟨a, (job.window start stop).1, (job.window start stop).2⟩,
              ⟨b, (job.window start stop).1, (job.window start stop).2⟩]⟩ := by
  unfold planLeg
  dsimp only
  split
  · exact .inl rfl
  · next i j hspan =>
      split at hspan
      · obtain ⟨hij, ⟨a, ha, hia⟩, b, hb, hjb⟩ := span?_spec hspan
        obtain ⟨mid, hbridge, hinner⟩ := take_drop_eq_cons_append hij hia hjb
        refine .inr ⟨_, a, mid, b, _, hinner, ha, hb, ?_⟩
        rw [hbridge, ← List.cons_append, List.getLast?_concat]
        simp
      · cases hspan

end RoutingJob

/-- What a plan promises. Its locks lie within the gate, and the ends of its teleports are switches that
are locked for the window of the teleport and for nothing else. -/
structure LockPlan.Fits (p : LockPlan) (job : RoutingJob) (n start stop : Nat) : Prop where
  timely : ∀ l ∈ p.locks ++ p.ends, start ≤ l.start ∧ l.start < l.stop ∧ l.stop ≤ stop
  joined : ∀ l ∈ p.ends, ∃ tp ∈ p.teleports, l.cell ∈ tp.endpoints
  gates : ∀ tp ∈ p.teleports, tp.gates = [n]
  window : ∀ tp ∈ p.teleports,
    tp.start = (job.window start stop).1 ∧ tp.stop = (job.window start stop).2
  switches : ∀ tp ∈ p.teleports, ∀ c ∈ tp.endpoints, c ∈ job.switches
  locked : ∀ tp ∈ p.teleports, ∀ c ∈ tp.endpoints, ⟨c, tp.start, tp.stop⟩ ∈ p.locks ++ p.ends
  alike : ∀ l ∈ p.locks ++ p.ends, ∀ tp ∈ p.teleports, l.cell ∈ tp.endpoints →
    l.start = tp.start ∧ l.stop = tp.stop

namespace RoutingJob

variable {job : RoutingJob} {n start stop : Nat}

theorem planLeg_cells {teleporting : Bool} {inner : List Cell} :
    (∀ l ∈ (job.planLeg n start stop teleporting inner).locks ++
        (job.planLeg n start stop teleporting inner).ends, l.cell ∈ inner) ∧
      ∀ tp ∈ (job.planLeg n start stop teleporting inner).teleports, ∀ c ∈ tp.endpoints,
        c ∈ inner := by
  rcases planLeg_cases job n start stop teleporting inner with
    h | ⟨before, a, mid, b, after, rfl, -, -, h⟩
  · rw [h]
    simp
  · rw [h]
    constructor
    · intro l hl
      simp only [List.mem_append, List.mem_map, List.mem_cons, List.not_mem_nil, or_false] at hl
      rcases hl with ((⟨c, hc, rfl⟩ | ⟨c, hc, rfl⟩) | ⟨c, hc, rfl⟩) | rfl | rfl <;> simp [*]
    · intro tp htp c hc
      rw [List.mem_singleton.1 htp] at hc
      have := (List.mem_filter.1 hc).1
      simp only [List.mem_append]
      exact .inl (.inr this)

theorem planLeg_fits {teleporting : Bool} {inner : List Cell} (hnodup : inner.Nodup)
    (h : start < stop) : (job.planLeg n start stop teleporting inner).Fits job n start stop := by
  obtain ⟨hfirst, hwindow, hlast⟩ := job.window_spec h
  rcases planLeg_cases job n start stop teleporting inner with
    hplan | ⟨before, a, mid, b, after, rfl, ha, hb, hplan⟩
  · rw [hplan]
    constructor <;> simp [h]
  · rw [hplan]
    -- cells outside the bridge are none of its endpoints
    have houtside (c : Cell) (hc : c ∈ before ∨ c ∈ after) : c ∉ a :: (mid ++ [b]) := by
      rw [List.nodup_append, List.nodup_append] at hnodup
      obtain ⟨⟨-, -, hbefore⟩, -, hafter⟩ := hnodup
      intro hmem
      rcases hc with hc | hc
      · exact hbefore c hc c hmem rfl
      · exact hafter c (List.mem_append_right _ hmem) c hc rfl
    constructor
    · intro l hl
      simp only [List.mem_append, List.mem_map, List.mem_cons, List.not_mem_nil, or_false] at hl
      rcases hl with ((⟨c, hc, rfl⟩ | ⟨c, hc, rfl⟩) | ⟨c, hc, rfl⟩) | rfl | rfl <;> simp only <;> omega
    · intro l hl
      refine ⟨_, List.mem_singleton_self _, ?_⟩
      simp only [List.mem_cons, List.not_mem_nil, or_false] at hl
      rcases hl with rfl | rfl <;> simp [ha, hb]
    · simp
    · simp
    · intro tp htp c hc
      rw [List.mem_singleton.1 htp] at hc
      simpa using (List.mem_filter.1 hc).2
    · intro tp htp c hc
      rw [List.mem_singleton.1 htp] at hc ⊢
      have hmem := (List.mem_filter.1 hc).1
      simp only [List.mem_cons, List.mem_append, List.not_mem_nil, or_false] at hmem
      rcases hmem with rfl | hmem | rfl <;> simp [*]
    · intro l hl tp htp hc
      rw [List.mem_singleton.1 htp] at hc ⊢
      have hmem := (List.mem_filter.1 hc).1
      simp only [List.mem_append, List.mem_map] at hl
      rcases hl with ((⟨c, hout, rfl⟩ | ⟨c, -, rfl⟩) | ⟨c, hout, rfl⟩) | hl
      · exact absurd hmem (houtside c (.inl hout))
      · simp
      · exact absurd hmem (houtside c (.inr hout))
      · simp only [List.mem_cons, List.not_mem_nil, or_false] at hl
        rcases hl with rfl | rfl <;> simp

/-- Whether the legs of a gate may be bridged. -/
def isBridging (job : RoutingJob) (inners : List (List Cell)) : Bool :=
  job.settings.teleport.enabled && job.settings.teleport.minRouteLength ≤ inners.flatten.length

/-- What a gate locks are its operands and what its legs lock. -/
theorem mem_planLocks {cells : List Cell} {inners : List (List Cell)} {l : CellLock} :
    l ∈ (job.planLocks n start stop cells inners).locks ++
        (job.planLocks n start stop cells inners).ends ↔
      (∃ c ∈ cells, l = ⟨c, start, stop⟩) ∨
        ∃ inner ∈ inners, l ∈ (job.planLeg n start stop (job.isBridging inners) inner).locks ++
          (job.planLeg n start stop (job.isBridging inners) inner).ends := by
  simp only [planLocks, isBridging, List.mem_append, List.mem_map, List.mem_flatMap,
    exists_exists_and_eq_and]
  constructor
  · rintro ((⟨c, hc, rfl⟩ | ⟨inner, hi, hl⟩) | ⟨inner, hi, hl⟩)
    · exact .inl ⟨c, hc, rfl⟩
    · exact .inr ⟨inner, hi, .inl hl⟩
    · exact .inr ⟨inner, hi, .inr hl⟩
  · rintro (⟨c, hc, rfl⟩ | ⟨inner, hi, hl | hl⟩)
    · exact .inl (.inl ⟨c, hc, rfl⟩)
    · exact .inl (.inr ⟨inner, hi, hl⟩)
    · exact .inr ⟨inner, hi, hl⟩

theorem mem_planLocks_teleports {cells : List Cell} {inners : List (List Cell)} {tp : Teleport} :
    tp ∈ (job.planLocks n start stop cells inners).teleports ↔
      ∃ inner ∈ inners, tp ∈ (job.planLeg n start stop (job.isBridging inners) inner).teleports := by
  simp [planLocks, isBridging, List.mem_flatMap]

theorem planLocks_cells {cells : List Cell} {inners : List (List Cell)} {l : CellLock}
    (h : l ∈ (job.planLocks n start stop cells inners).locks ++
      (job.planLocks n start stop cells inners).ends) : l.cell ∈ cells ∨ l.cell ∈ inners.flatten := by
  rcases mem_planLocks.1 h with ⟨c, hc, rfl⟩ | ⟨inner, hi, hl⟩
  · exact .inl hc
  · exact .inr (List.mem_flatten.2 ⟨inner, hi, planLeg_cells.1 l hl⟩)

/-- The plan of a gate fits if no cell between its operands occurs twice or is an operand's. -/
theorem planLocks_fits {cells : List Cell} {inners : List (List Cell)} (h : start < stop)
    (hnodup : inners.flatten.Nodup) (hcells : ∀ c ∈ inners.flatten, c ∉ cells) :
    (job.planLocks n start stop cells inners).Fits job n start stop := by
  obtain ⟨hinner, hdisjoint⟩ := List.nodup_flatten.1 hnodup
  have hsame (inner : List Cell) (hi : inner ∈ inners) (inner' : List Cell) (hi' : inner' ∈ inners)
      (c : Cell) (hc : c ∈ inner) (hc' : c ∈ inner') : inner = inner' := by
    have : Std.Symm (@List.Disjoint Cell) := ⟨fun _ _ => List.disjoint_symm⟩
    by_contra hne
    exact hdisjoint.forall hi hi' hne hc hc'
  have hfits (inner : List Cell) (hi : inner ∈ inners) :
      (job.planLeg n start stop (job.isBridging inners) inner).Fits job n start stop :=
    planLeg_fits (hinner inner hi) h
  constructor
  · intro l hl
    rcases mem_planLocks.1 hl with ⟨c, -, rfl⟩ | ⟨inner, hi, hl⟩
    · simp only
      omega
    · exact (hfits inner hi).timely l hl
  · intro l hl
    obtain ⟨p, hp, hl⟩ := List.mem_flatMap.1 hl
    obtain ⟨inner, hi, rfl⟩ := List.mem_map.1 hp
    obtain ⟨tp, htp, hc⟩ := (hfits inner hi).joined l hl
    exact ⟨tp, mem_planLocks_teleports.2 ⟨inner, hi, htp⟩, hc⟩
  · intro tp htp
    obtain ⟨inner, hi, htp⟩ := mem_planLocks_teleports.1 htp
    exact (hfits inner hi).gates tp htp
  · intro tp htp
    obtain ⟨inner, hi, htp⟩ := mem_planLocks_teleports.1 htp
    exact (hfits inner hi).window tp htp
  · intro tp htp
    obtain ⟨inner, hi, htp⟩ := mem_planLocks_teleports.1 htp
    exact (hfits inner hi).switches tp htp
  · intro tp htp c hc
    obtain ⟨inner, hi, htp⟩ := mem_planLocks_teleports.1 htp
    exact mem_planLocks.2 (.inr ⟨inner, hi, (hfits inner hi).locked tp htp c hc⟩)
  · intro l hl tp htp hc
    obtain ⟨inner, hi, htp⟩ := mem_planLocks_teleports.1 htp
    have hcell : l.cell ∈ inner := planLeg_cells.2 tp htp l.cell hc
    rcases mem_planLocks.1 hl with ⟨c, hcell', rfl⟩ | ⟨inner', hi', hl⟩
    · exact absurd hcell' (hcells c (List.mem_flatten.2 ⟨inner, hi, hcell⟩))
    · cases hsame inner hi inner' hi' l.cell hcell (planLeg_cells.1 l hl)
      exact (hfits inner hi).alike l hl tp htp hc

/-- A plan is feasible if its operands and the cells between them are free for the whole gate. -/
theorem isFeasible_of_free {grid : LockGrid} {shared : List Cell} {cells : List Cell}
    {legs : List (List Cell)} (hlt : start < stop) (hfree : ∀ c ∈ cells, grid.isFree c start stop = true)
    (hlegs : job.legs grid shared start stop cells cells = .ok (some legs))
    (hinner : ∀ c ∈ (legs.map interior).flatten, grid.isFree c start stop = true) :
    isFeasible grid shared (job.planLocks n start stop cells (legs.map interior)) = true := by
  have hinside (c : Cell) (hc : c ∈ cells) : grid.inside c = true :=
    (LockGrid.isFree_iff.1 (hfree c hc)).1
  obtain ⟨hnodup, hcells⟩ := legs_interiors hlegs hinside
  have hfits : (job.planLocks n start stop cells (legs.map interior)).Fits job n start stop :=
    planLocks_fits hlt hnodup fun c hc => (hcells c hc).2
  have hlocks : ∀ k ∈ (job.planLocks n start stop cells (legs.map interior)).locks ++
      (job.planLocks n start stop cells (legs.map interior)).ends,
        grid.isFree k.cell k.start k.stop = true := by
    intro k hk
    obtain ⟨hfirst, -, hlast⟩ := hfits.timely k hk
    have hwhole : grid.isFree k.cell start stop = true := by
      rcases planLocks_cells hk with hc | hc
      · exact hfree _ hc
      · exact hinner _ hc
    exact LockGrid.isFree_mono hwhole hfirst hlast
  simp only [isFeasible, Bool.and_eq_true, List.all_eq_true, Bool.or_eq_true]
  exact ⟨fun k hk => hlocks k (List.mem_append_left _ hk),
    fun k hk => .inl (hlocks k (List.mem_append_right _ hk))⟩

theorem Admission.plan_fits {f : Fabric} {t : Nat} (a : Admission job f n t) :
    a.plan.Fits job n t a.stop := by
  have hinside (c : Cell) (hc : c ∈ a.cells) : f.grid.inside c = true :=
    (Bool.and_eq_true_iff.1 (a.cells_free c hc)).1
  obtain ⟨hnodup, hcells⟩ := legs_interiors a.legs_eq hinside
  exact planLocks_fits a.lt_stop hnodup fun c hc => (hcells c hc).2

end RoutingJob

end SurfaceFabric
