import SurfaceFabric.Proofs.Routing.Quiet

/-!
Grids on which nothing is held. Every cell is free at all times there, so relaxed searches find no more than
strict ones, and whether a gate finds its legs depends neither on the tick nor on earlier teleports.
-/

namespace SurfaceFabric

theorem PathQuery.passable_of_vacant {q : PathQuery} (h : q.grid.holds = []) (c : Cell) :
    q.passable c = (q.grid.isRoute c && decide (c ∉ q.blocked)) := by
  rw [passable]
  cases hroute : q.grid.isRoute c with
  | false => rfl
  | true =>
      rw [LockGrid.isFree_of_holds_eq_nil h (LockGrid.inside_of_isRoute hroute), Bool.true_or, Bool.and_true]

namespace PathSearch

variable {q q' : PathQuery} {score : Nat → Cell → Float} {source target : Cell}

/-- A search depends on the grid and on what is passable. -/
theorem explore_congr (hgrid : q'.grid = q.grid) (hpass : ∀ c, q'.passable c = q.passable c)
    (unexpanded : List Cell) (s : SearchState) :
    explore q' score source target unexpanded s = explore q score source target unexpanded s := by
  have hreach (c : Cell) : reach q' score source target c = reach q score source target c := by
    funext s step
    have hmay : q'.mayStep source target c step = q.mayStep source target c step := by
      simp only [PathQuery.mayStep, hgrid, hpass]
    simp only [reach, hmay]
  induction unexpanded, s using explore.induct q score source target with
  | case1 unexpanded s hnone =>
      rw [explore, explore]
      split <;> simp_all
  | case2 unexpanded s c others hpop htarget =>
      rw [explore, explore]
      split <;> simp_all
  | case3 unexpanded s c others hpop htarget hmem ih =>
      rw [explore, explore]
      split <;> simp_all
  | case4 unexpanded s c others hpop htarget hmem ih =>
      rw [explore, explore]
      split <;> simp_all

theorem find?_congr (hgrid : q'.grid = q.grid) (hpass : ∀ c, q'.passable c = q.passable c) (a b : Cell) :
    find? q' a b = find? q a b := by
  rw [find?, find?, findBy?, findBy?, hgrid, explore_congr hgrid hpass]

end PathSearch

namespace RoutingJob

variable {job : RoutingJob} {grid : LockGrid} {n t stop : Nat}

/-- Searches of any kind come to the same where nothing is held. -/
theorem leg?_of_vacant (job : RoutingJob) (h : grid.holds = []) (shared : List Cell) (start stop : Nat)
    (blocked : List Cell) (a b : Cell) :
    job.leg? grid shared start stop blocked a b = PathSearch.find? ⟨grid, 0, 0, blocked, none⟩ a b := by
  have hsame (q : PathQuery) (hgrid : q.grid = grid) (hblocked : q.blocked = blocked) :
      PathSearch.find? q a b = PathSearch.find? ⟨grid, 0, 0, blocked, none⟩ a b := by
    refine PathSearch.find?_congr hgrid (fun c => ?_) a b
    rw [PathQuery.passable_of_vacant (hgrid ▸ h), PathQuery.passable_of_vacant h, hgrid, hblocked]
  unfold leg?
  dsimp only
  rw [hsame ⟨grid, start, stop, blocked, none⟩ rfl rfl]
  split
  · rw [hsame ⟨grid, start, stop, blocked, _⟩ rfl rfl, Option.or_self]
  · exact Option.or_none

theorem legs_of_vacant (job : RoutingJob) (h : grid.holds = []) (shared : List Cell) (start stop : Nat)
    (blocked cells : List Cell) :
    job.legs grid shared start stop blocked cells = job.legs grid [] 0 0 blocked cells := by
  induction cells generalizing blocked with
  | nil => rfl
  | cons a tail ih =>
      cases tail with
      | nil => rfl
      | cons b rest => simp only [legs, leg?_of_vacant job h, ih]

/-- On a vacant grid a gate whose operands are found is not admitted just if one of them is off the grid or a
leg is missing. -/
theorem plan?_eq_none_iff_of_vacant {f : Fabric} {cells : List Cell} (h : f.grid.holds = []) (hlt : t < stop) :
    job.plan? f n t stop cells = .ok none ↔
      (∃ c ∈ cells, f.grid.inside c = false) ∨ job.legs f.grid [] 0 0 cells cells = .ok none := by
  have hfree (c : Cell) : f.grid.isFree c t stop = f.grid.inside c := by
    rw [LockGrid.isFree, LockGrid.isUnheld, h, List.all_nil, Bool.and_true]
  by_cases hinside : ∀ c ∈ cells, f.grid.inside c = true
  · have hcells : ∀ c ∈ cells, f.grid.isFree c t stop = true := fun c hc => (hfree c).trans (hinside c hc)
    have hoff : ¬∃ c ∈ cells, f.grid.inside c = false := by
      rintro ⟨c, hc, hout⟩
      rw [hinside c hc] at hout
      cases hout
    obtain ⟨k, hk, hplan⟩ := plan?_eq_bind job n hcells
    rw [legs_of_vacant job h] at hplan
    refine ⟨fun hnone => .inr ?_, fun hnone => ?_⟩
    · cases hlegs : job.legs f.grid [] 0 0 cells cells with
      | error e =>
          rw [hplan, hlegs] at hnone
          cases hnone
      | ok found =>
          cases found with
          | none => rfl
          | some legs =>
              have hinner : ∀ c ∈ (legs.map interior).flatten, f.grid.isFree c t stop = true := fun c hc =>
                (hfree c).trans (LockGrid.inside_of_isRoute ((legs_interiors hlegs hinside).2 c hc).1)
              rw [← legs_of_vacant job h (sharedEndpoints f (job.window t stop)) t stop] at hlegs
              obtain ⟨p, hp⟩ := plan?_of_free (n := n) hlt hcells hlegs hinner
              rw [hnone] at hp
              cases hp
    · rw [hplan, hnone.resolve_left hoff]
      exact hk
  · refine ⟨fun _ => .inl ?_, fun _ => plan?_eq_none_of_held fun hall => hinside fun c hc => ?_⟩
    · push Not at hinside
      simpa only [ne_eq, Bool.not_eq_true] using hinside
    · exact (hfree c).symm.trans (hall c hc)

/-- Between two operands there is no way that keeps clear of the others and of the legs found before. -/
inductive CutOff (job : RoutingJob) (grid : LockGrid) : List Cell → List Cell → Prop
  | here {a b : Cell} {blocked rest : List Cell}
      (h : ∀ path, ¬PathSearch.IsPath ⟨grid, 0, 0, blocked.filter fun c => c ≠ a ∧ c ≠ b, none⟩ a b path) :
      CutOff job grid blocked (a :: b :: rest)
  | later {a b : Cell} {blocked rest leg : List Cell}
      (hleg : job.leg? grid [] 0 0 (blocked.filter fun c => c ≠ a ∧ c ≠ b) a b = some leg)
      (hlength : 2 ≤ leg.length)
      (h : CutOff job grid ((blocked.filter fun c => c ≠ a ∧ c ≠ b) ++ leg) (b :: rest)) :
      CutOff job grid blocked (a :: b :: rest)

theorem cutOff_of_legs {blocked cells : List Cell} (hvacant : grid.holds = [])
    (hinside : ∀ c ∈ cells, grid.inside c = true)
    (h : job.legs grid [] 0 0 blocked cells = .ok none) : job.CutOff grid blocked cells := by
  induction cells generalizing blocked with
  | nil =>
      simp only [legs, pure_eq_ok_iff] at h
      cases h
  | cons a tail ih =>
      cases tail with
      | nil =>
          simp only [legs, pure_eq_ok_iff] at h
          cases h
      | cons b rest =>
          have ha := hinside a List.mem_cons_self
          simp only [legs] at h
          split at h
          · next hnone =>
              rw [leg?_of_vacant job hvacant] at hnone
              refine .here fun path hpath => ?_
              obtain ⟨path', hsome⟩ := PathSearch.findBy?_isSome (q := ⟨grid, 0, 0, _, none⟩) ha hpath.reaches
              rw [PathSearch.find?, hsome] at hnone
              cases hnone
          · next leg hleg =>
              split at h
              · cases h
              · next hlength =>
                  obtain ⟨later, hlater, h⟩ := bind_eq_ok_iff.1 h
                  obtain rfl : later = none := by simpa [pure_eq_ok_iff] using h
                  exact .later hleg (Nat.not_lt.1 hlength)
                    (ih (fun c hc => hinside c (List.mem_cons_of_mem _ hc)) hlater)

theorem CutOff.legs_eq {blocked cells : List Cell} (h : job.CutOff grid blocked cells) (hvacant : grid.holds = [])
    (hinside : ∀ c ∈ cells, grid.inside c = true) : job.legs grid [] 0 0 blocked cells = .ok none := by
  induction h with
  | @here a b blocked rest hnone =>
      have hleg : job.leg? grid [] 0 0 (blocked.filter fun c => c ≠ a ∧ c ≠ b) a b = none := by
        rw [leg?_of_vacant job hvacant, Option.eq_none_iff_forall_ne_some]
        intro path hpath
        exact hnone path (PathSearch.findBy?_isPath (q := ⟨grid, 0, 0, _, none⟩) (hinside a List.mem_cons_self) hpath)
      simp only [legs, hleg]
      rfl
  | later hleg hlength _ ih =>
      simp only [legs, hleg, if_neg (Nat.not_lt.2 hlength), ih fun c hc => hinside c (List.mem_cons_of_mem _ hc)]
      rfl

end RoutingJob

end SurfaceFabric
