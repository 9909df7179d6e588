import Mathlib.Logic.Relation
import SurfaceFabric.Proofs.Tiling.WellTiled
import SurfaceFabric.Tiling.Audit
import SurfaceFabric.Tiling.Operation

/-!
Every operation on a tiling is made of edits and changes of roles. Both keep a grid well tiled, so a grid
that starts as one free segment is well tiled after any run of operations, and its audit passes.
-/

namespace SurfaceFabric.Tiling

variable {t t' : Tiling} {e : Edit}

inductive Change (t : Tiling) : Tiling → Prop
  | commit {e : Edit} {ids : List Nat} {t' : Tiling} : t.commit e = .ok (ids, t') → Change t t'
  | setRole {id : Nat} {role : Role} {allocated : Bool} {t' : Tiling} :
      t.setRole id role allocated = .ok t' → Change t t'

abbrev Changes : Tiling → Tiling → Prop := Relation.ReflTransGen Change

theorem nextIdAfter_eq_ok_iff {n k : Nat} :
    t.nextIdAfter n = .ok k ↔ t.nextId + n ≤ Word.top ∧ k = t.nextId + n := by
  by_cases h : t.nextId + n ≤ Word.top
  · simp [nextIdAfter, h, eq_comm]
  · simp [nextIdAfter, h]

theorem commit_eq_ok_iff {ids : List Nat} : t.commit e = .ok (ids, t') ↔
    t.checkEdit e = .ok () ∧ t.nextId + e.added.length ≤ Word.top ∧
      ids = (fresh t.nextId e.added).map Segment.id ∧
        t' = t.replace e (t.nextId + e.added.length) := by
  simp only [commit, bind_eq_ok_iff, Outcome.liftM_eq_ok_iff, nextIdAfter_eq_ok_iff, pure_eq_ok_iff,
    Prod.mk.injEq]
  constructor
  · rintro ⟨⟨⟩, hcheck, _, ⟨hle, rfl⟩, rfl, rfl⟩
    exact ⟨hcheck, hle, rfl, rfl⟩
  · rintro ⟨hcheck, hle, rfl, rfl⟩
    exact ⟨(), hcheck, _, ⟨hle, rfl⟩, rfl, rfl⟩

theorem setRole_eq_ok_iff {id : Nat} {role : Role} {allocated : Bool} :
    t.setRole id role allocated = .ok t' ↔ (∃ s, t.segment? id = some s) ∧
      t' = { t with segments := t.segments.map fun s =>
        if s.id = id then { s with role := role, allocated := allocated } else s } := by
  simp only [setRole, segment, bind_eq_ok_iff, Outcome.ofOption_eq_ok_iff, pure_eq_ok_iff]
  constructor
  · rintro ⟨s, hs, rfl⟩
    exact ⟨⟨s, hs⟩, rfl⟩
  · rintro ⟨⟨s, hs⟩, rfl⟩
    exact ⟨s, hs, rfl⟩

theorem WellTiled.commit (h : t.WellTiled) {ids : List Nat} (hcommit : t.commit e = .ok (ids, t')) :
    t'.WellTiled := by
  obtain ⟨hcheck, -, -, rfl⟩ := commit_eq_ok_iff.1 hcommit
  exact h.replace (replaces_of_checkEdit h.ascending h.apart hcheck)

/-- Being well tiled does not depend on what segments are used for. -/
theorem WellTiled.map (h : t.WellTiled) {g : Segment → Segment} (hid : ∀ s, (g s).id = s.id)
    (hrect : ∀ s, (g s).rect = s.rect) (hlinks : ∀ s side, (g s).neighbours side = s.neighbours side) :
    { t with segments := t.segments.map g }.WellTiled := by
  refine ⟨?_, ?_, ?_, ?_, ?_, ?_, ?_, ?_⟩ <;> dsimp only
  · rw [List.pairwise_map]
    simpa only [hid] using h.ascending
  · simpa only [List.forall_mem_map, hid] using h.lt_nextId
  · simpa only [List.forall_mem_map, hrect] using h.inhabited
  · simpa only [List.forall_mem_map, hrect, grid] using h.bounded
  · simpa only [List.mem_map, exists_exists_and_eq_and, hrect, grid] using h.covered
  · simpa only [List.forall_mem_map, hid, hrect] using h.apart
  · rw [List.forall_mem_map]
    simpa only [List.mem_map, exists_exists_and_eq_and, hid, hrect, hlinks] using h.linked
  · simpa only [List.forall_mem_map, hlinks] using h.links_ascending

theorem WellTiled.setRole (h : t.WellTiled) {id : Nat} {role : Role} {allocated : Bool}
    (hset : t.setRole id role allocated = .ok t') : t'.WellTiled := by
  obtain ⟨-, rfl⟩ := setRole_eq_ok_iff.1 hset
  refine h.map ?_ ?_ ?_ <;> intro s <;> split <;> first | rfl | (intro side; cases side <;> rfl)

theorem WellTiled.change (h : t.WellTiled) (hchange : Change t t') : t'.WellTiled := by
  cases hchange with
  | commit hcommit => exact h.commit hcommit
  | setRole hset => exact h.setRole hset

theorem WellTiled.changes (h : t.WellTiled) (hchanges : Changes t t') : t'.WellTiled := by
  induction hchanges with
  | refl => exact h
  | tail _ hchange ih => exact ih.change hchange

theorem Changes.grid_eq (h : Changes t t') : t'.height = t.height ∧ t'.width = t.width := by
  induction h with
  | refl => exact ⟨rfl, rfl⟩
  | tail _ hchange ih =>
      cases hchange with
      | commit hcommit =>
          obtain ⟨-, -, -, rfl⟩ := commit_eq_ok_iff.1 hcommit
          exact ih
      | setRole hset =>
          obtain ⟨-, rfl⟩ := setRole_eq_ok_iff.1 hset
          exact ih

theorem changes_of_split {id : Nat} {b : Box} {ids : List Nat} (h : t.split id b = .ok (ids, t')) :
    Changes t t' := by
  obtain ⟨e, -, h⟩ := bind_eq_ok_iff.1 h
  exact .single (.commit h)

theorem commit_of_firstOf {x : Option (List Nat × Tiling)} {id : Nat}
    (h : firstOf x = some (id, t')) : ∃ later, x = some (id :: later, t') := by
  match x with
  | none => cases h
  | some ([], _) => cases h
  | some (first :: later, u) =>
      cases h
      exact ⟨later, rfl⟩

/-- The parts of an allocation that succeeds. -/
theorem allocAt_eq_some {id n : Nat} {b : Box} {role : Role}
    (h : t.allocAt id b role = .ok (some (n, t'))) :
    ∃ e later, t.splitEdit id b = .ok e ∧ t.commit (claimFirst role e) = .ok (n :: later, t') := by
  unfold allocAt at h
  split at h
  · split at h
    · simp at h
    · obtain ⟨height, -, h⟩ := bind_eq_ok_iff.1 h
      split at h
      · simp at h
      · obtain ⟨width, -, h⟩ := bind_eq_ok_iff.1 h
        split at h
        · simp at h
        · obtain ⟨found, hsplit, h⟩ := bind_eq_ok_iff.1 h
          cases found with
          | none => simp at h
          | some e =>
              obtain ⟨made, hcommit, h⟩ := bind_eq_ok_iff.1 h
              obtain ⟨later, rfl⟩ := commit_of_firstOf (pure_eq_ok_iff.1 h)
              exact ⟨e, later, Outcome.toOption_eq_ok_some_iff.1 hsplit,
                Outcome.toOption_eq_ok_some_iff.1 hcommit⟩
  · simp at h

theorem splitEdit_eq_ok {id : Nat} {b : Box} (h : t.splitEdit id b = .ok e) :
    ∃ s inner, t.segment? id = some s ∧ s.allocated = false ∧ Rect.ofBox b = .ok inner ∧
      (inner.Inhabited ∧ s.rect.includes inner = true) ∧
      e = ⟨[id], (inner :: s.rect.remainder inner).map fun r => ⟨r, s.role, false⟩⟩ := by
  obtain ⟨s, hs, h⟩ := bind_eq_ok_iff.1 h
  obtain ⟨hfree, h⟩ := Outcome.guard_eq_ok_iff.1 h
  obtain ⟨inner, hinner, h⟩ := bind_eq_ok_iff.1 h
  obtain ⟨hinside, h⟩ := Outcome.guard_eq_ok_iff.1 h
  simp only [Bool.or_eq_true, not_or, Bool.not_eq_true, Rect.isEmpty_eq_false_iff, Bool.not_eq_false'] at hinside
  exact ⟨s, inner, Outcome.ofOption_eq_ok_iff.1 hs, by simpa using hfree,
    Outcome.liftM_eq_ok_iff.1 hinner, hinside, (pure_eq_ok_iff.1 h).symm⟩

theorem alloc_eq_some {id h w n : Nat} {role : Role} (halloc : t.alloc id h w role = .ok (some (n, t'))) :
    ∃ b, t.allocAt id b role = .ok (some (n, t')) := by
  unfold alloc at halloc
  split at halloc
  · simp at halloc
  · exact ⟨_, halloc⟩

theorem partition_eq_ok {id : Nat} {pieces : List Piece} {ids : List Nat}
    (h : t.partition id pieces = .ok (ids, t')) : t.commit ⟨[id], pieces⟩ = .ok (ids, t') := by
  unfold partition at h
  obtain ⟨s, -, h⟩ := bind_eq_ok_iff.1 h
  obtain ⟨-, h⟩ := Outcome.guard_eq_ok_iff.1 h
  obtain ⟨total, -, h⟩ := bind_eq_ok_iff.1 h
  obtain ⟨area, -, h⟩ := bind_eq_ok_iff.1 h
  exact (Outcome.guard_eq_ok_iff.1 h).2

theorem mergeInto_eq_some {removed : List Nat} {merged : Rect} {leftovers : List Rect} {n : Nat}
    (h : t.mergeInto removed merged leftovers = .ok (some (n, t'))) :
    ∃ later, t.commit ⟨removed, (merged :: leftovers).map Piece.free⟩ = .ok (n :: later, t') := by
  obtain ⟨made, hcommit, h⟩ := bind_eq_ok_iff.1 h
  obtain ⟨later, rfl⟩ := commit_of_firstOf (pure_eq_ok_iff.1 h)
  exact ⟨later, Outcome.toOption_eq_ok_some_iff.1 hcommit⟩

theorem mergePair_eq_some {join? : Rect → Rect → Option Rect} {a b n : Nat}
    (h : t.mergePair join? a b = .ok (some (n, t'))) :
    ∃ r s merged, t.freePair? a b = some (r, s) ∧ join? r s = some merged ∧
      t.mergeInto [a, b] merged [] = .ok (some (n, t')) := by
  unfold mergePair at h
  split at h
  · simp at h
  · next r s hpair =>
      split at h
      · simp at h
      · next merged hjoin => exact ⟨r, s, merged, hpair, hjoin, h⟩

theorem Growth.run_eq_some {g : Growth} {id n : Nat} (h : g.run t id = .ok (some (n, t'))) :
    ∃ s rects merged leftovers, t.segment? id = some s ∧ s.isFree = true ∧ t.freeRects? (g.links s) = some rects ∧
      t.mergeInto (id :: g.links s) merged leftovers = .ok (some (n, t')) := by
  unfold Growth.run at h
  split at h
  · next s hs =>
      split at h
      · simp at h
      · next hfree =>
          split at h
          · next rects hrects =>
              obtain ⟨extents, -, h⟩ := bind_eq_ok_iff.1 h
              split at h
              · obtain ⟨leftovers, -, h⟩ := bind_eq_ok_iff.1 h
                obtain ⟨edge, -, h⟩ := bind_eq_ok_iff.1 h
                exact ⟨s, rects, _, _, hs, by simpa using hfree, hrects, h⟩
              · simp at h
          · simp at h
  · simp at h

theorem changes_of_mergePair {join? : Rect → Rect → Option Rect} {a b n : Nat}
    (h : t.mergePair join? a b = .ok (some (n, t'))) : Changes t t' := by
  obtain ⟨r, s, merged, -, -, h⟩ := mergePair_eq_some h
  obtain ⟨later, h⟩ := mergeInto_eq_some h
  exact .single (.commit h)

/-- Merges of aligned pairs are merges one after another. -/
theorem mergePairs_of_mergeAligned {links : Segment → List Nat} {join? : Rect → Rect → Option Rect}
    {limit count : Nat} (h : mergeAligned links join? limit t = .ok (count, t')) :
    Relation.ReflTransGen (fun u v => ∃ a b n, u.mergePair join? a b = .ok (some (n, v))) t t' := by
  induction limit generalizing t count with
  | zero =>
      cases h
      exact .refl
  | succ limit ih =>
      rw [mergeAligned] at h
      split at h
      · cases h
        exact .refl
      · obtain ⟨found, hmerge, h⟩ := bind_eq_ok_iff.1 h
        match found with
        | none =>
            cases h
            exact .refl
        | some (n, u) =>
            obtain ⟨⟨m, v⟩, hrest, h⟩ := bind_eq_ok_iff.1 h
            cases h
            exact .head ⟨_, _, n, hmerge⟩ (ih hrest)

theorem changes_of_mergeAligned {links : Segment → List Nat} {join? : Rect → Rect → Option Rect}
    {limit count : Nat} (h : mergeAligned links join? limit t = .ok (count, t')) : Changes t t' := by
  have hpairs := mergePairs_of_mergeAligned h
  clear h
  induction hpairs with
  | refl => exact .refl
  | tail _ hmerge ih =>
      obtain ⟨a, b, n, hmerge⟩ := hmerge
      exact ih.trans (changes_of_mergePair hmerge)

section Replies

/-! What holds of the tiling before and of every accepted result holds after the reply. -/

variable {P : Tiling → Prop} {reply : Reply}

theorem of_replyMade {r : Outcome GeometryError (List Nat × Tiling)} (hsame : P t)
    (hmade : ∀ ids u, r = .ok (ids, u) → P u) (h : replyMade t r = .ok (t', reply)) : P t' := by
  obtain ⟨settled, hsettle, h⟩ := bind_eq_ok_iff.1 h
  match settled with
  | .error e =>
      cases h
      exact hsame
  | .ok (ids, u) =>
      cases h
      exact hmade ids _ (Outcome.settle_eq_ok_ok_iff.1 hsettle)

theorem of_replyFound {r : Checked (Option (Nat × Tiling))} (hsame : P t)
    (hfound : ∀ n u, r = .ok (some (n, u)) → P u) (h : replyFound t r = .ok (t', reply)) : P t' := by
  obtain ⟨found, hr, h⟩ := bind_eq_ok_iff.1 h
  match found with
  | none =>
      cases h
      exact hsame
  | some (n, u) =>
      cases h
      exact hfound n _ hr

theorem of_replyDone {r : Outcome GeometryError Tiling} (hsame : P t) (hdone : ∀ u, r = .ok u → P u)
    (h : replyDone t r = .ok (t', reply)) : P t' := by
  obtain ⟨settled, hsettle, h⟩ := bind_eq_ok_iff.1 h
  match settled with
  | .error e =>
      cases h
      exact hsame
  | .ok u =>
      cases h
      exact hdone _ (Outcome.settle_eq_ok_ok_iff.1 hsettle)

theorem of_replyCount {r : Checked (Nat × Tiling)} (hcount : ∀ n u, r = .ok (n, u) → P u)
    (h : replyCount r = .ok (t', reply)) : P t' := by
  obtain ⟨⟨n, u⟩, hr, h⟩ := bind_eq_ok_iff.1 h
  cases h
  exact hcount n _ hr

end Replies

/-- Whatever operation is performed, accepted or refused, the tiling only goes through edits and changes
of roles. -/
theorem changes_of_perform {op : Operation} {reply : Reply} (h : t.perform op = .ok (t', reply)) :
    Changes t t' := by
  have halloc {id n : Nat} {b : Box} {role : Role} {u : Tiling}
      (h : t.allocAt id b role = .ok (some (n, u))) : Changes t u := by
    obtain ⟨e, later, -, hcommit⟩ := allocAt_eq_some h
    exact .single (.commit hcommit)
  have hinto {removed : List Nat} {merged : Rect} {leftovers : List Rect} {n : Nat} {u : Tiling}
      (h : t.mergeInto removed merged leftovers = .ok (some (n, u))) : Changes t u := by
    obtain ⟨later, hcommit⟩ := mergeInto_eq_some h
    exact .single (.commit hcommit)
  cases op with
  | split id b => exact of_replyMade .refl (fun ids u hsplit => changes_of_split hsplit) h
  | commit e => exact of_replyMade .refl (fun ids u hcommit => .single (.commit hcommit)) h
  | partition id pieces =>
      exact of_replyMade .refl (fun ids u hpart => .single (.commit (partition_eq_ok hpart))) h
  | alloc id height width role =>
      refine of_replyFound .refl (fun n u hsome => ?_) h
      obtain ⟨b, hsome⟩ := alloc_eq_some hsome
      exact halloc hsome
  | allocAt id b role => exact of_replyFound .refl (fun n u hsome => halloc hsome) h
  | mergeHorizontal a b => exact of_replyFound .refl (fun n u hsome => changes_of_mergePair hsome) h
  | mergeVertical a b => exact of_replyFound .refl (fun n u hsome => changes_of_mergePair hsome) h
  | growRight id =>
      refine of_replyFound .refl (fun n u hsome => ?_) h
      obtain ⟨s, rects, merged, leftovers, -, -, -, hsome⟩ := Growth.run_eq_some (g := .right) hsome
      exact hinto hsome
  | growDown id =>
      refine of_replyFound .refl (fun n u hsome => ?_) h
      obtain ⟨s, rects, merged, leftovers, -, -, -, hsome⟩ := Growth.run_eq_some (g := .down) hsome
      exact hinto hsome
  | mergeColumns => exact of_replyCount (fun n u hall => changes_of_mergeAligned hall) h
  | mergeRows => exact of_replyCount (fun n u hall => changes_of_mergeAligned hall) h
  | setRole id role allocated => exact of_replyDone .refl (fun u hset => .single (.setRole hset)) h
  | release id => exact of_replyDone .refl (fun u hset => .single (.setRole hset)) h

theorem changes_of_performAll {ops : List Operation} (h : t.performAll ops = .ok t') :
    Changes t t' := by
  induction ops generalizing t with
  | nil =>
      cases h
      exact .refl
  | cons op rest ih =>
      obtain ⟨⟨u, reply⟩, hop, h⟩ := bind_eq_ok_iff.1 h
      exact (changes_of_perform hop).trans (ih h)

theorem WellTiled.mem_neighbours_iff (h : t.WellTiled) {s u : Segment} (hs : s ∈ t.segments)
    (hu : u ∈ t.segments) {side : Side} :
    u.id ∈ s.neighbours side ↔ s.id ≠ u.id ∧ s.rect.Touches u.rect side := by
  rw [h.linked s hs]
  constructor
  · rintro ⟨v, hv, heq, hne, htouch⟩
    rw [h.eq_of_id_eq hv hu heq] at htouch
    exact ⟨hne, htouch⟩
  · rintro ⟨hne, htouch⟩
    exact ⟨u, hu, rfl, hne, htouch⟩

theorem WellTiled.mutual (h : t.WellTiled) {s u : Segment} (hs : s ∈ t.segments) (hu : u ∈ t.segments)
    {side : Side} (hlink : u.id ∈ s.neighbours side) : s.id ∈ u.neighbours side.opposite := by
  obtain ⟨hne, htouch⟩ := (h.mem_neighbours_iff hs hu).1 hlink
  exact (h.mem_neighbours_iff hu hs).2 ⟨hne.symm, htouch.symm⟩

theorem WellTiled.sum_cellCount (h : t.WellTiled) :
    (t.segments.map fun s => s.rect.cellCount).sum = t.height * t.width := by
  have hapart : (t.segments.map Segment.rect).Pairwise Rect.Apart := by
    rw [List.pairwise_map]
    exact h.ascending.imp_of_mem fun hs hu hlt => h.apart _ hs _ hu hlt.ne
  have hunion : Rect.union (t.segments.map Segment.rect) = t.grid.cover := by
    ext p
    simp only [Rect.mem_union, Rect.mem_cover, List.mem_map, exists_exists_and_eq_and]
    constructor
    · rintro ⟨s, hs, hp⟩
      exact h.bounded s hs _ hp
    · exact h.covered _
  have hcard := Rect.card_union hapart
  rw [hunion, Rect.card_cover, List.map_map] at hcard
  exact hcard.symm.trans (by simp [Rect.cellCount, grid])

theorem auditCover_eq_ok {grid : Rect} {segments : List Segment}
    (hfits : ∀ s ∈ segments, s.rect.Inhabited ∧ ∀ c ∈ s.rect, c ∈ grid)
    (hapart : segments.Pairwise fun s u => s.rect.Apart u.rect)
    (htop : (segments.map fun s => s.rect.cellCount).sum ≤ Long.top) :
    auditCover grid segments = .ok (segments.map fun s => s.rect.cellCount).sum := by
  induction segments with
  | nil => rfl
  | cons s rest ih =>
      obtain ⟨hs, hrest⟩ := List.forall_mem_cons.1 hfits
      obtain ⟨hfirst, hlater⟩ := List.pairwise_cons.1 hapart
      rw [List.map_cons, List.sum_cons] at htop ⊢
      have hnone : (rest.find? fun u => s.rect.overlaps u.rect) = none := by
        rw [List.find?_eq_none]
        intro u hu
        rw [Rect.overlaps_eq_false_iff.2 (hfirst u hu)]
        exact Bool.false_ne_true
      have harea : s.rect.area = .ok s.rect.cellCount :=
        Rect.area_eq_ok_iff.2 ⟨⟨hs.1.1.le, hs.1.2.le⟩, rfl⟩
      rw [auditCover]
      refine Outcome.guard_eq_ok_iff.2 ⟨?_, ?_⟩
      · rw [Rect.isEmpty_eq_false_iff.2 hs.1, (Rect.includes_iff hs.1).2 hs.2]
        simp
      · refine bind_eq_ok_iff.2 ⟨_, Outcome.liftM_eq_ok_iff.2 harea, ?_⟩
        rw [hnone]
        refine bind_eq_ok_iff.2 ⟨_, ih hrest hlater (by omega), ?_⟩
        exact Outcome.liftM_eq_ok_iff.2 (Long.add_eq_ok_iff.2 ⟨htop, rfl⟩)

theorem WellTiled.pairFlaw?_eq_none (h : t.WellTiled) {s u : Segment} (hs : s ∈ t.segments)
    (hu : u ∈ t.segments) : pairFlaw? s u = none := by
  unfold pairFlaw?
  split
  · rfl
  · next hne =>
      rw [List.findSome?_eq_none_iff]
      intro side _
      have hlisted : (s.rect.touchingSide? u.rect == some side) = decide (u.id ∈ s.neighbours side) := by
        rw [Bool.eq_iff_iff, beq_iff_eq, decide_eq_true_iff, h.mem_neighbours_iff hs hu,
          Rect.touchingSide?_eq_some_iff (h.inhabited s hs) (h.inhabited u hu) (h.apart s hs u hu hne)]
        simp [hne]
      unfold linkFlaw?
      dsimp only
      rw [hlisted, bne_self_eq_false]
      by_cases hlink : u.id ∈ s.neighbours side
      · simp [hlink, h.mutual hs hu hlink]
      · simp [hlink]

/-- The audit of a well tiled grid of word size passes. -/
theorem WellTiled.audit_eq_ok (h : t.WellTiled) (hheight : t.height ≤ Word.top)
    (hwidth : t.width ≤ Word.top) : t.audit = .ok () := by
  have htop : t.height * t.width ≤ Long.top :=
    (Nat.mul_le_mul hheight hwidth).trans (by decide)
  have hcover : auditCover t.grid t.segments = .ok (t.height * t.width) := by
    rw [← h.sum_cellCount]
    refine auditCover_eq_ok (fun s hs => ⟨h.inhabited s hs, h.bounded s hs⟩) ?_ ?_
    · exact h.ascending.imp_of_mem fun hs hu hlt => h.apart _ hs _ hu hlt.ne
    · rw [h.sum_cellCount]
      exact htop
  have harea : t.grid.area = .ok (t.height * t.width) :=
    Rect.area_eq_ok_iff.2 ⟨⟨Nat.zero_le _, Nat.zero_le _⟩, by simp [Rect.cellCount, grid]⟩
  have hlinks : (t.segments.findSome? fun s => t.segments.findSome? (pairFlaw? s)) = none := by
    simp only [List.findSome?_eq_none_iff]
    intro s hs u hu
    exact h.pairFlaw?_eq_none hs hu
  unfold audit
  refine bind_eq_ok_iff.2 ⟨_, hcover, bind_eq_ok_iff.2 ⟨_, Outcome.liftM_eq_ok_iff.2 harea, ?_⟩⟩
  refine Outcome.guard_eq_ok_iff.2 ⟨by simp, ?_⟩
  rw [hlinks]
  rfl

/-- After any run of operations, accepted or refused, each cell of the grid lies in exactly one segment,
links are exactly the segments that lie against each other, and the audit passes. -/
theorem performAll_wellTiled {height width : Nat} {ops : List Operation} {t : Tiling}
    (hheight : height ≤ Word.top) (hwidth : width ≤ Word.top)
    (h : (ofSize height width).performAll ops = .ok t) :
    t.grid = ⟨0, 0, height, width⟩ ∧ t.WellTiled ∧
      (∀ c ∈ t.grid, ∃! s, s ∈ t.segments ∧ c ∈ s.rect) ∧
      (∀ s ∈ t.segments, ∀ u ∈ t.segments, ∀ side,
        u.id ∈ s.neighbours side ↔ s.id ∈ u.neighbours side.opposite) ∧
      t.audit = .ok () := by
  have hchanges := changes_of_performAll h
  have hsize : t.height = height ∧ t.width = width := by
    have hofSize : (ofSize height width).height = height ∧ (ofSize height width).width = width := by
      unfold ofSize
      split <;> exact ⟨rfl, rfl⟩
    exact ⟨hchanges.grid_eq.1.trans hofSize.1, hchanges.grid_eq.2.trans hofSize.2⟩
  have hwell := (wellTiled_ofSize height width).changes hchanges
  refine ⟨?_, hwell, ?_, ?_, hwell.audit_eq_ok (by omega) (by omega)⟩
  · rw [grid, hsize.1, hsize.2]
  · intro c hc
    obtain ⟨s, hs, hcs⟩ := hwell.covered c hc
    exact ⟨s, ⟨hs, hcs⟩, fun u hu => hwell.eq_of_mem hu.1 hs hu.2 hcs⟩
  · intro s hs u hu side
    refine ⟨hwell.mutual hs hu, fun hlink => ?_⟩
    simpa using hwell.mutual hu hs hlink

/-- A box is cut out of a grid and taken, another is refused, and the rest is joined again. -/
def sampleRun : List Operation :=
  [.split 0 ⟨1, 1, 2, 2⟩, .alloc 2 1 3 .register, .split 9 ⟨0, 0, 1, 1⟩, .growDown 1, .mergeColumns,
    .setRole 6 .route true, .mergeRows]

theorem sampleRun_wellTiled : ∃ t, (ofSize 4 6).performAll sampleRun = .ok t ∧ t.WellTiled ∧
    t.audit = .ok () := by
  obtain ⟨t, h, -⟩ := exists_ok_of_any (x := (ofSize 4 6).performAll sampleRun) (p := fun _ => True)
    (by decide +kernel)
  obtain ⟨-, hwell, -, -, haudit⟩ := performAll_wellTiled (by decide) (by decide) h
  exact ⟨t, h, hwell, haudit⟩

end SurfaceFabric.Tiling
