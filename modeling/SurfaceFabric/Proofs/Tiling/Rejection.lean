import SurfaceFabric.Proofs.Tiling.FixedPoint
import SurfaceFabric.Proofs.Tiling.Grow

/-!
When operations are rejected. Each has a requirement that can be read off the tiling, and it is rejected exactly if
the requirement does not hold; the tiling is then what it was. In particular no edit that an operation works out for
itself is ever refused.
-/

namespace SurfaceFabric.Tiling

variable {t t' : Tiling} {id : Nat} {b : Box}

/-! ### Requirements -/

def BoxFits (t : Tiling) (id : Nat) (b : Box) : Prop :=
  ∃ s ∈ t.segments, s.id = id ∧ s.allocated = false ∧ b.rect.Inhabited ∧ ∀ c ∈ b.rect, c ∈ s.rect

def Operation.Applies (t : Tiling) : Operation → Prop
  | .split id b | .allocAt id b _ => t.BoxFits id b
  | .commit e => t.ExactEdit e
  | .partition id pieces =>
      ∃ s ∈ t.segments, s.id = id ∧ s.allocated = false ∧ TilesExactly pieces (· ∈ s.rect)
  | .alloc id h w _ => ∃ s ∈ t.segments, s.id = id ∧ s.allocated = false ∧
      (0 < h ∧ h ≤ s.rect.y1 - s.rect.y0) ∧ 0 < w ∧ w ≤ s.rect.x1 - s.rect.x0
  | .mergeHorizontal a b => t.Joinable .right a b
  | .mergeVertical a b => t.Joinable .below a b
  | .growRight id => ∃ s, s.id = id ∧ t.CanGrow .right s
  | .growDown id => ∃ s, s.id = id ∧ t.CanGrow .below s
  | .mergeColumns | .mergeRows => True
  | .setRole id _ _ | .release id => ∃ s ∈ t.segments, s.id = id

def Reply.rejects : Reply → Bool
  | .found none | .refused _ => true
  | _ => false

/-- What comes of an operation with a requirement. -/
structure Settles (t : Tiling) (applies : Prop) (result : Checked (Tiling × Reply)) : Prop where
  /-- A rejected operation changes nothing. -/
  unchanged : ∀ t' reply, result = .ok (t', reply) → reply.rejects = true → t' = t
  rejected_iff : ∀ t' reply, result = .ok (t', reply) → (reply.rejects = true ↔ ¬applies)
  /-- Only the segment numbers can run out on one that applies. -/
  faulted : ∀ f, result = .error f → applies → f = .idsExhausted

namespace Settles

variable {P : Prop} {u : Tiling} {reply : Reply}

theorem fault {f : Fault} (h : P → f = .idsExhausted) : t.Settles P (.error f) := by
  refine ⟨nofun, nofun, fun f' heq => ?_⟩
  cases heq
  exact h

theorem rejected (hreply : reply.rejects = true) (h : ¬P) : t.Settles P (.ok (t, reply)) := by
  refine ⟨fun t' reply' heq _ => ?_, fun t' reply' heq => ?_, nofun⟩ <;> cases heq
  · rfl
  · exact iff_of_true hreply h

theorem accepted (hreply : reply.rejects = false) (h : P) : t.Settles P (.ok (u, reply)) := by
  refine ⟨fun t' reply' heq hrejects => ?_, fun t' reply' heq => ?_, nofun⟩ <;> cases heq
  · exact absurd hrejects (by simp [hreply])
  · exact iff_of_false (by simp [hreply]) (not_not.2 h)

theorem made {r : Outcome GeometryError (List Nat × Tiling)} (hsound : ∀ ids u, r = .ok (ids, u) → P)
    (hcomplete : P → (∃ ids u, r = .ok (ids, u)) ∨ r = .error (.fault .idsExhausted)) :
    t.Settles P (replyMade t r) := by
  rcases r with (f | e) | ⟨ids, u⟩
  · exact .fault fun hP => by simpa using hcomplete hP
  · exact .rejected rfl fun hP => by simpa using hcomplete hP
  · exact .accepted rfl (hsound ids u rfl)

theorem found {r : Checked (Option (Nat × Tiling))} (hsound : ∀ n u, r = .ok (some (n, u)) → P)
    (hcomplete : P → (∃ n u, r = .ok (some (n, u))) ∨ r = .error .idsExhausted) :
    t.Settles P (replyFound t r) := by
  rcases r with f | (_ | ⟨n, u⟩)
  · exact .fault fun hP => by simpa using hcomplete hP
  · exact .rejected rfl fun hP => by simpa using hcomplete hP
  · exact .accepted rfl (hsound n u rfl)

theorem count {r : Checked (Nat × Tiling)} (hcomplete : (∃ n u, r = .ok (n, u)) ∨ r = .error .idsExhausted) :
    t.Settles True (replyCount r) := by
  rcases hcomplete with ⟨n, u, rfl⟩ | rfl
  · exact .accepted rfl trivial
  · exact .fault fun _ => rfl

end Settles

/-! ### Operations -/

theorem boxFits_of_splitEdit {e : Edit} (hedit : t.splitEdit id b = .ok e) : t.BoxFits id b := by
  obtain ⟨s, inner, hs, hfree, hinner, ⟨hinhabited, hincludes⟩, -⟩ := splitEdit_eq_ok hedit
  obtain ⟨hmem, hid⟩ := mem_of_segment? hs
  obtain rfl : inner = b.rect := Rect.ofBox_eq_ok hinner
  exact ⟨s, hmem, hid, hfree, hinhabited, (Rect.includes_iff hinhabited).1 hincludes⟩

/-- A box in the upper left corner of a rectangle. -/
theorem corner_box_iff {r : Rect} {height width : Nat} :
    ((⟨r.y0, r.x0, height, width⟩ : Box).rect.Inhabited ∧
        ∀ c ∈ (⟨r.y0, r.x0, height, width⟩ : Box).rect, c ∈ r) ↔
      (0 < height ∧ height ≤ r.y1 - r.y0) ∧ 0 < width ∧ width ≤ r.x1 - r.x0 := by
  constructor
  · rintro ⟨hbox, hinside⟩
    have hincludes := (Rect.includes_iff hbox).2 hinside
    simp only [Rect.includes, Bool.and_eq_true, decide_eq_true_eq] at hincludes
    simp only [Rect.Inhabited, Box.rect] at hbox hincludes
    omega
  · rintro ⟨⟨htall, hheight⟩, hwide, hwidth⟩
    have hbox : (⟨r.y0, r.x0, height, width⟩ : Box).rect.Inhabited :=
      ⟨Nat.lt_add_of_pos_right htall, Nat.lt_add_of_pos_right hwide⟩
    refine ⟨hbox, (Rect.includes_iff hbox).1 ?_⟩
    simp only [Rect.includes, Bool.and_eq_true, decide_eq_true_eq]
    simp only [Box.rect]
    omega

section

variable (h : t.WordTiled)

include h

theorem WordTiled.settles_split (id : Nat) (b : Box) : t.Settles (t.BoxFits id b) (replyMade t (t.split id b)) := by
  refine .made (fun ids u hsplit => ?_) ?_
  · obtain ⟨e, hedit, -⟩ := bind_eq_ok_iff.1 hsplit
    exact boxFits_of_splitEdit hedit
  · rintro ⟨s, hs, rfl, hfree, hbox, hinside⟩
    rw [h.split_eq hs hfree hbox ((Rect.includes_iff hbox).2 hinside)]
    split
    · exact .inl ⟨_, _, rfl⟩
    · exact .inr rfl

/-- A box is allocated in a segment that it fits in, unless the segment numbers run out. -/
theorem WordTiled.allocAt_of_boxFits (hfits : t.BoxFits id b) (role : Role) :
    (∃ n t', t.allocAt id b role = .ok (some (n, t'))) ∨
      (t.allocAt id b role = .error .idsExhausted ∧ Word.top < t.nextId + 5) := by
  obtain ⟨s, hs, rfl, hfree, hbox, hinside⟩ := hfits
  rw [h.allocAt_eq hs hfree hbox ((Rect.includes_iff hbox).2 hinside)]
  have hfew := length_remainder_le s.rect b.rect
  split
  · exact .inl ⟨_, _, rfl⟩
  · exact .inr ⟨rfl, by omega⟩

theorem WordTiled.settles_allocAt (id : Nat) (b : Box) (role : Role) :
    t.Settles (t.BoxFits id b) (replyFound t (t.allocAt id b role)) := by
  refine .found (fun n u halloc => ?_) fun hfits => (h.allocAt_of_boxFits hfits role).imp_right And.left
  obtain ⟨e, -, hedit, -⟩ := allocAt_eq_some halloc
  exact boxFits_of_splitEdit hedit

theorem WordTiled.settles_commit (e : Edit) : t.Settles (t.ExactEdit e) (replyMade t (t.commit e)) := by
  refine .made (fun ids u hcommit => ?_) fun hexact => ?_
  · obtain ⟨hcheck, -⟩ := commit_eq_ok_iff.1 hcommit
    exact exactEdit_iff.2 (replaces_of_checkEdit h.ascending h.apart hcheck)
  · rw [h.commit_eq (exactEdit_iff.1 hexact)]
    split
    · exact .inl ⟨_, _, rfl⟩
    · exact .inr rfl

theorem WordTiled.settles_pair {side : Side} {join? : Rect → Rect → Option Rect} (hjoin : JoinsOn side join?)
    (a b : Nat) : t.Settles (t.Joinable side a b) (replyFound t (t.mergePair join? a b)) := by
  refine .found (fun n u hmerge => ?_) ?_
  · by_contra hnot
    rw [h.mergePair_of_not_joinable hjoin hnot] at hmerge
    cases hmerge
  · rintro ⟨s, hs, v, hv, ⟨rfl, rfl⟩, ⟨hsfree, hvfree⟩, habuts⟩
    rw [h.mergePair_eq hjoin hs hv hsfree hvfree habuts]
    split
    · exact .inl ⟨_, _, rfl⟩
    · exact .inr rfl

theorem WordTiled.settles_growth {side : Side} {g : Growth} (hg : g.On side) (id : Nat) :
    t.Settles (∃ s, s.id = id ∧ t.CanGrow side s) (replyFound t (g.run t id)) := by
  have hsettled := g.growSettled hg h id
  refine .found (fun n u hgrow => ?_) fun hcan => ?_
  · obtain ⟨s, -, hid, hcan, -⟩ := hsettled.grown n u hgrow
    exact ⟨s, hid, hcan⟩
  · cases hrun : g.run t id with
    | error f => exact .inr (by rw [(hsettled.faulted f hrun).1])
    | ok found =>
        cases found with
        | none => exact absurd hcan (hsettled.refused.1 hrun)
        | some grown => exact .inl ⟨_, _, rfl⟩

theorem WordTiled.settles_mergeAligned {side : Side} {links : Segment → List Nat}
    {join? : Rect → Rect → Option Rect} (hlinks : ∀ s, links s = s.neighbours side) (hjoin : JoinsOn side join?) :
    t.Settles True (replyCount (mergeAligned links join? mergeLimit t)) :=
  .count ((h.mergeSettled hlinks hjoin).returned.imp_right And.left)

theorem WordTiled.settles_partition (id : Nat) (pieces : List Piece) :
    t.Settles (∃ s ∈ t.segments, s.id = id ∧ s.allocated = false ∧ TilesExactly pieces (· ∈ s.rect))
      (replyMade t (t.partition id pieces)) := by
  classical
  refine .made (fun ids u hmade => ?_) ?_
  · by_cases hpresent : ∃ s ∈ t.segments, s.id = id
    · obtain ⟨s, hs, rfl⟩ := hpresent
      cases hallocated : s.allocated with
      | true =>
          rw [h.partition_of_allocated hs pieces hallocated] at hmade
          cases hmade
      | false =>
          obtain ⟨hcheck, -⟩ := commit_eq_ok_iff.1 (partition_eq_ok hmade)
          have he := replaces_of_checkEdit h.ascending h.apart hcheck
          refine ⟨s, hs, rfl, hallocated, tilesExactly_iff.2 ⟨he.inhabited, he.apart, fun c => ?_⟩⟩
          refine (he.exact c).trans ?_
          simp only [List.mem_singleton]
          exact h.exists_id_iff hs
    · rw [partition_of_absent pieces fun s hs hid => hpresent ⟨s, hs, hid⟩] at hmade
      cases hmade
  · rintro ⟨s, hs, rfl, hfree, htiled⟩
    obtain ⟨hinhabited, htiles⟩ := tilesExactly_rect_iff.1 htiled
    have he := h.replaces_single hs htiles hinhabited
    rw [h.partition_of_free hs hfree (h.measured he), if_pos htiled, h.commit_eq he]
    split
    · exact .inl ⟨_, _, rfl⟩
    · exact .inr rfl

theorem WordTiled.settles_alloc (id height width : Nat) (role : Role) :
    t.Settles (∃ s ∈ t.segments, s.id = id ∧ s.allocated = false ∧
      (0 < height ∧ height ≤ s.rect.y1 - s.rect.y0) ∧ 0 < width ∧ width ≤ s.rect.x1 - s.rect.x0)
      (replyFound t (t.alloc id height width role)) := by
  unfold alloc
  cases hsegment : t.segment? id with
  | none =>
      refine .found nofun ?_
      rintro ⟨s, hs, hid, -⟩
      rw [(segment?_eq_some_iff h.ascending).2 ⟨hs, hid⟩] at hsegment
      cases hsegment
  | some s =>
      obtain ⟨hs, rfl⟩ := (segment?_eq_some_iff h.ascending).1 hsegment
      have hfits : t.BoxFits s.id ⟨s.rect.y0, s.rect.x0, height, width⟩ ↔ ∃ u ∈ t.segments, u.id = s.id ∧
          u.allocated = false ∧ (0 < height ∧ height ≤ u.rect.y1 - u.rect.y0) ∧
            0 < width ∧ width ≤ u.rect.x1 - u.rect.x0 := by
        rw [BoxFits, h.exists_id_iff hs, h.exists_id_iff hs, corner_box_iff]
      rw [← hfits]
      exact h.settles_allocAt s.id _ role

theorem WordTiled.settles_setRole (id : Nat) (role : Role) (allocated : Bool) :
    t.Settles (∃ s ∈ t.segments, s.id = id) (replyDone t (t.setRole id role allocated)) := by
  rw [setRole, segment]
  cases hsegment : t.segment? id with
  | none =>
      refine .rejected rfl ?_
      rintro ⟨s, hs, hid⟩
      rw [(segment?_eq_some_iff h.ascending).2 ⟨hs, hid⟩] at hsegment
      cases hsegment
  | some s => exact .accepted rfl ⟨s, (segment?_eq_some_iff h.ascending).1 hsegment⟩

theorem WordTiled.settles_perform (op : Operation) : t.Settles (op.Applies t) (t.perform op) := by
  cases op with
  | split id b => exact h.settles_split id b
  | commit e => exact h.settles_commit e
  | partition id pieces => exact h.settles_partition id pieces
  | alloc id height width role => exact h.settles_alloc id height width role
  | allocAt id b role => exact h.settles_allocAt id b role
  | mergeHorizontal a b => exact h.settles_pair joinsOn_besides a b
  | mergeVertical a b => exact h.settles_pair joinsOn_stacked a b
  | growRight id =>
      rw [perform, growRight]
      exact h.settles_growth Growth.right_on id
  | growDown id =>
      rw [perform, growDown]
      exact h.settles_growth Growth.down_on id
  | mergeColumns => exact h.settles_mergeAligned (fun _ => rfl) joinsOn_stacked
  | mergeRows => exact h.settles_mergeAligned (fun _ => rfl) joinsOn_besides
  | setRole id role allocated => exact h.settles_setRole id role allocated
  | release id => exact h.settles_setRole id .unassigned false

end

/-- On every tiling that operations lead to, an operation is rejected exactly if it does not apply, and changes
nothing then. A box is allocated wherever it fits. -/
theorem rejected_operations_change_nothing {height width : Nat} {ops : List Operation} {t : Tiling}
    (hheight : height ≤ Word.top) (hwidth : width ≤ Word.top)
    (hreach : (ofSize height width).performAll ops = .ok t) :
    (∀ op, t.Settles (op.Applies t) (t.perform op)) ∧
      ∀ id b role, t.BoxFits id b → (∃ n t', t.allocAt id b role = .ok (some (n, t'))) ∨
        (t.allocAt id b role = .error .idsExhausted ∧ Word.top < t.nextId + 5) := by
  have h := wordTiled_of_performAll hheight hwidth hreach
  exact ⟨h.settles_perform, fun id b role hfits => h.allocAt_of_boxFits hfits role⟩

/-- In the grid with a corner cut off, the allocated cell cannot be split, and what lies beside it has room for
another. -/
theorem corner_rejections : (ofSize 2 3).performAll Corner.ops = .ok Corner.tiling ∧
    Corner.tiling.perform (.split 4 ⟨1, 0, 1, 1⟩) = .ok (Corner.tiling, .refused (.allocated 4)) ∧
    ¬(Operation.split 4 ⟨1, 0, 1, 1⟩).Applies Corner.tiling ∧ Corner.tiling.BoxFits 5 ⟨1, 2, 1, 1⟩ ∧
    ∃ n t', Corner.tiling.allocAt 5 ⟨1, 2, 1, 1⟩ .io = .ok (some (n, t')) := by
  have hreach : (ofSize 2 3).performAll Corner.ops = .ok Corner.tiling := by decide +kernel
  obtain ⟨hsettles, hallocates⟩ := rejected_operations_change_nothing (by decide) (by decide) hreach
  have hrefused : Corner.tiling.perform (.split 4 ⟨1, 0, 1, 1⟩) = .ok (Corner.tiling, .refused (.allocated 4)) := rfl
  have hfits : Corner.tiling.BoxFits 5 ⟨1, 2, 1, 1⟩ := by
    refine ⟨_, List.mem_cons_of_mem _ (List.mem_cons_of_mem _ (List.mem_cons_of_mem _ List.mem_cons_self)), rfl, rfl,
      ⟨by decide, by decide⟩, (Rect.includes_iff ⟨by decide, by decide⟩).1 (by decide)⟩
  refine ⟨hreach, hrefused, ((hsettles _).rejected_iff _ _ hrefused).1 rfl, hfits, ?_⟩
  exact (hallocates 5 _ .io hfits).resolve_right fun hfault => absurd hfault.2 (by decide)

end SurfaceFabric.Tiling
