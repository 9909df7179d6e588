import SurfaceFabric.Proofs.Tiling.Roles

/-!
What operations on a tiling leave alone. A segment that an operation does not name keeps its number, rectangle,
role and flag, so cells change their use only inside named segments. Cutting a segment and joining free ones
change no cell at all, and allocating a box changes exactly its cells. Numbers are given out in ascending order,
so a number that is gone does not come back.
-/

namespace SurfaceFabric

structure Segment.Alike (s u : Segment) : Prop where
  id : u.id = s.id
  rect : u.rect = s.rect
  role : u.role = s.role
  allocated : u.allocated = s.allocated

namespace Segment.Alike

variable {s u v : Segment}

theorem refl (s : Segment) : s.Alike s := ⟨rfl, rfl, rfl, rfl⟩

theorem trans (h : s.Alike u) (h' : u.Alike v) : s.Alike v :=
  ⟨h'.id.trans h.id, h'.rect.trans h.rect, h'.role.trans h.role, h'.allocated.trans h.allocated⟩

theorem isFree (h : s.Alike u) : u.isFree = s.isFree := by
  rw [Segment.isFree, h.allocated, h.role, Segment.isFree]

end Segment.Alike

namespace Tiling

variable {t t' u : Tiling} {e : Edit} {named named' : Segment → Prop} {c : Cell}

/-! ### Cells -/

/-- What a cell is used for, and whether it is allocated. -/
def useAt? (t : Tiling) (c : Cell) : Option (Role × Bool) := (t.at? c).map fun s => (s.role, s.allocated)

theorem WellTiled.useAt?_eq (h : t.WellTiled) {s : Segment} (hs : s ∈ t.segments) (hc : c ∈ s.rect) :
    t.useAt? c = some (s.role, s.allocated) := by
  rw [useAt?, h.at?_eq_some_iff.2 ⟨hs, hc⟩, Option.map_some]

theorem WellTiled.useAt?_eq_none (h : t.WellTiled) (hc : c ∉ t.grid) : t.useAt? c = none := by
  rw [useAt?, Option.map_eq_none_iff, Option.eq_none_iff_forall_ne_some]
  intro s hs
  obtain ⟨hmem, hcs⟩ := h.at?_eq_some_iff.1 hs
  exact hc (h.bounded s hmem c hcs)

/-- A tiling that comes of another by taking out some of the named segments and adding new ones. -/
structure Keeps (t : Tiling) (named : Segment → Prop) (t' : Tiling) : Prop where
  wellTiled : t'.WellTiled
  grid : t'.grid = t.grid
  nextId_le : t.nextId ≤ t'.nextId
  kept : ∀ s ∈ t.segments,
    (∃ u ∈ t'.segments, s.Alike u) ∨ (named s ∧ ∀ u ∈ t'.segments, u.id ≠ s.id)
  origin : ∀ u ∈ t'.segments, (∃ s ∈ t.segments, s.Alike u) ∨ t.nextId ≤ u.id

namespace Keeps

theorem refl (h : t.WellTiled) : Keeps t named t :=
  ⟨h, rfl, le_rfl, fun s hs => .inl ⟨s, hs, .refl s⟩, fun s hs => .inl ⟨s, hs, .refl s⟩⟩

theorem weaken (h : Keeps t named t') (himp : ∀ s ∈ t.segments, named s → named' s) : Keeps t named' t' :=
  { h with kept := fun s hs => (h.kept s hs).imp_right fun hgone => ⟨himp s hs hgone.1, hgone.2⟩ }

/-- What is gone after the first step has a number below those that the second gives out. -/
theorem trans (h : Keeps t named u) (h' : Keeps u named' t') (hwell : t.WellTiled)
    (himp : ∀ s v, s.Alike v → named' v → named s) : Keeps t named t' := by
  refine ⟨h'.wellTiled, h'.grid.trans h.grid, h.nextId_le.trans h'.nextId_le, fun s hs => ?_, fun v hv => ?_⟩
  · rcases h.kept s hs with ⟨v, hv, hsv⟩ | ⟨hnamed, hgone⟩
    · rcases h'.kept v hv with ⟨w, hw, hvw⟩ | ⟨hnamed, hgone⟩
      · exact .inl ⟨w, hw, hsv.trans hvw⟩
      · exact .inr ⟨himp s v hsv hnamed, fun w hw => hsv.id ▸ hgone w hw⟩
    · refine .inr ⟨hnamed, fun w hw hid => ?_⟩
      rcases h'.origin w hw with ⟨v, hv, hvw⟩ | hnew
      · exact hgone v hv (hvw.id.symm.trans hid)
      · have hlt := hwell.lt_nextId s hs
        have hle := h.nextId_le
        omega
  · rcases h'.origin v hv with ⟨w, hw, hwv⟩ | hnew
    · rcases h.origin w hw with ⟨s, hs, hsw⟩ | hnew
      · exact .inl ⟨s, hs, hsw.trans hwv⟩
      · exact .inr (hwv.id ▸ hnew)
    · exact .inr (h.nextId_le.trans hnew)

/-- Cells change their use in named segments only. -/
theorem useAt?_eq (h : Keeps t named t') (hwell : t.WellTiled)
    (hc : ∀ s ∈ t.segments, named s → c ∉ s.rect) : t'.useAt? c = t.useAt? c := by
  by_cases hgrid : c ∈ t.grid
  · obtain ⟨s, hs, hcs⟩ := hwell.covered c hgrid
    rcases h.kept s hs with ⟨v, hv, hsv⟩ | ⟨hnamed, -⟩
    · rw [h.wellTiled.useAt?_eq hv (hsv.rect ▸ hcs), hwell.useAt?_eq hs hcs, hsv.role, hsv.allocated]
    · exact absurd hcs (hc s hs hnamed)
  · rw [hwell.useAt?_eq_none hgrid, h.wellTiled.useAt?_eq_none (h.grid ▸ hgrid)]

end Keeps

/-! ### Edits -/

theorem alike_relinked (t : Tiling) (e : Edit) (s : Segment) : s.Alike (t.relinked e s) := by
  unfold relinked
  split
  · exact ⟨rfl, rfl, rfl, rfl⟩
  · exact .refl s

section Commit

variable (h : t.WellTiled) {ids : List Nat} (hcommit : t.commit e = .ok (ids, t'))

include h hcommit

theorem WellTiled.keeps_commit : Keeps t (fun s => s.id ∈ e.removed) t' := by
  have hwell := h.commit hcommit
  obtain ⟨-, -, -, rfl⟩ := commit_eq_ok_iff.1 hcommit
  refine ⟨hwell, rfl, Nat.le_add_right .., fun s hs => ?_, fun v hv => ?_⟩
  · by_cases hremoved : s.id ∈ e.removed
    · refine .inr ⟨hremoved, fun v hv hid => ?_⟩
      rcases mem_replace.1 hv with ⟨w, -, hkept, rfl⟩ | ⟨w, hw, rfl⟩
      · rw [relinked_id] at hid
        exact hkept (hid ▸ hremoved)
      · have hlt := h.lt_nextId s hs
        have hle := (mem_fresh hw).1
        rw [linkedAnew_id] at hid
        omega
    · exact .inl ⟨_, mem_replace.2 (.inl ⟨s, hs, hremoved, rfl⟩), alike_relinked t e s⟩
  · rcases mem_replace.1 hv with ⟨w, hw, -, rfl⟩ | ⟨w, hw, rfl⟩
    · exact .inl ⟨w, hw, alike_relinked t e w⟩
    · exact .inr (mem_fresh hw).1

/-- A cell of a new piece is used as the piece says. -/
theorem WellTiled.useAt?_added {p : Piece} (hp : p ∈ e.added) (hc : c ∈ p.rect) :
    t'.useAt? c = some (p.role, p.allocated) := by
  have hwell := h.commit hcommit
  obtain ⟨-, -, -, rfl⟩ := commit_eq_ok_iff.1 hcommit
  obtain ⟨n, hn⟩ := exists_mem_fresh t.nextId hp
  exact hwell.useAt?_eq (mem_replace.2 (.inr ⟨_, hn, rfl⟩)) hc

/-- The cells of the pieces are those of the removed segments. -/
theorem WellTiled.exists_piece_iff :
    (∃ p ∈ e.added, c ∈ p.rect) ↔ ∃ s ∈ t.segments, s.id ∈ e.removed ∧ c ∈ s.rect :=
  (h.recast hcommit).exact c

/-- Pieces that are used as what they replace change no cell. -/
theorem WellTiled.useAt?_commit (hsame : ∀ s ∈ t.segments, s.id ∈ e.removed →
    ∀ p ∈ e.added, p.role = s.role ∧ p.allocated = s.allocated) (c : Cell) : t'.useAt? c = t.useAt? c := by
  by_cases hc : ∃ s ∈ t.segments, s.id ∈ e.removed ∧ c ∈ s.rect
  · obtain ⟨p, hp, hcp⟩ := (h.exists_piece_iff hcommit).2 hc
    obtain ⟨s, hs, hid, hcs⟩ := hc
    obtain ⟨hrole, hallocated⟩ := hsame s hs hid p hp
    rw [h.useAt?_added hcommit hp hcp, h.useAt?_eq hs hcs, hrole, hallocated]
  · exact (h.keeps_commit hcommit).useAt?_eq h fun s hs hid hcs => hc ⟨s, hs, hid, hcs⟩

end Commit

/-- A tiling that comes of another by cutting and joining named segments, without a change to any cell. -/
structure Reshapes (t : Tiling) (named : Segment → Prop) (t' : Tiling) : Prop where
  keeps : Keeps t named t'
  useAt? : ∀ c, t'.useAt? c = t.useAt? c

theorem Reshapes.refl (h : t.WellTiled) : Reshapes t named t := ⟨.refl h, fun _ => rfl⟩

theorem Reshapes.weaken (h : Reshapes t named t') (himp : ∀ s ∈ t.segments, named s → named' s) :
    Reshapes t named' t' :=
  ⟨h.keeps.weaken himp, h.useAt?⟩

section Operations

variable (h : t.WellTiled)

include h

theorem WellTiled.reshapes_split {id : Nat} {b : Box} {ids : List Nat} (hsplit : t.split id b = .ok (ids, t')) :
    Reshapes t (fun s => s.id = id) t' := by
  obtain ⟨e, hedit, hcommit⟩ := bind_eq_ok_iff.1 hsplit
  obtain ⟨s, inner, hs, hfree, -, -, rfl⟩ := splitEdit_eq_ok hedit
  obtain ⟨hmem, rfl⟩ := mem_of_segment? hs
  refine ⟨(h.keeps_commit hcommit).weaken fun v _ hid => List.mem_singleton.1 hid,
    h.useAt?_commit hcommit fun v hv hid p hp => ?_⟩
  obtain rfl := h.eq_of_id_eq hv hmem (List.mem_singleton.1 hid)
  obtain ⟨r, -, rfl⟩ := List.mem_map.1 hp
  exact ⟨rfl, hfree.symm⟩

theorem WellTiled.reshapes_mergeInto {removed : List Nat} {merged : Rect} {leftovers : List Rect} {n : Nat}
    (hfree : ∀ s ∈ t.segments, s.id ∈ removed → s.isFree = true)
    (hmerge : t.mergeInto removed merged leftovers = .ok (some (n, t'))) :
    Reshapes t (fun s => s.id ∈ removed) t' := by
  obtain ⟨later, hcommit⟩ := mergeInto_eq_some hmerge
  refine ⟨h.keeps_commit hcommit, h.useAt?_commit hcommit fun s hs hid p hp => ?_⟩
  have hs := hfree s hs hid
  obtain ⟨r, -, rfl⟩ := List.mem_map.1 hp
  exact ⟨(role_of_isFree hs).symm, (allocated_of_isFree hs).symm⟩

theorem WellTiled.reshapes_mergePair {join? : Rect → Rect → Option Rect} {a b n : Nat}
    (hmerge : t.mergePair join? a b = .ok (some (n, t'))) :
    Reshapes t (fun s => s.id ∈ [a, b] ∧ s.isFree = true) t' := by
  obtain ⟨r, s, merged, hpair, -, hmerge⟩ := mergePair_eq_some hmerge
  have hfree := h.isFree_of_freePair? hpair
  exact (h.reshapes_mergeInto hfree hmerge).weaken fun v hv hid => ⟨hid, hfree v hv hid⟩

/-- Growing takes the band from the neighbours on one side. -/
theorem WellTiled.reshapes_grow (links : Segment → List Nat) {id n : Nat} {s : Segment} {rects : List Rect}
    {merged : Rect} {leftovers : List Rect} (hs : t.segment? id = some s) (hfree : s.isFree = true)
    (hrects : t.freeRects? (links s) = some rects)
    (hmerge : t.mergeInto (id :: links s) merged leftovers = .ok (some (n, t'))) :
    Reshapes t (fun v => v.id = id ∨ ∃ w ∈ t.segments, w.id = id ∧ v.id ∈ links w) t' := by
  refine (h.reshapes_mergeInto (h.isFree_of_freeRects? hs hfree hrects) hmerge).weaken fun v _ hid => ?_
  obtain ⟨hmem, heq⟩ := mem_of_segment? hs
  exact (List.mem_cons.1 hid).imp_right fun hlink => ⟨s, hmem, heq, hlink⟩

theorem WellTiled.reshapes_mergeAligned {links : Segment → List Nat} {join? : Rect → Rect → Option Rect}
    {limit count : Nat} (hmerge : Tiling.mergeAligned links join? limit t = .ok (count, t')) :
    Reshapes t (fun s => s.isFree = true) t' := by
  have hpairs := mergePairs_of_mergeAligned hmerge
  clear hmerge
  induction hpairs with
  | refl => exact .refl h
  | tail _ hpair ih =>
      obtain ⟨a, b, n, hpair⟩ := hpair
      have hlast := (ih.keeps.wellTiled.reshapes_mergePair hpair).weaken fun s _ hs => hs.2
      refine ⟨ih.keeps.trans hlast.keeps h fun s w hsw hw => ?_, fun c => ?_⟩
      · rwa [← hsw.isFree]
      · rw [hlast.useAt?, ih.useAt?]

/-- Allocating a box changes exactly its cells. -/
theorem WellTiled.useAt?_allocAt {id n : Nat} {b : Box} {role : Role}
    (halloc : t.allocAt id b role = .ok (some (n, t'))) (c : Cell) :
    t'.useAt? c = if c ∈ b.rect then some (role, true) else t.useAt? c := by
  obtain ⟨e, later, hedit, hcommit⟩ := allocAt_eq_some halloc
  obtain ⟨s, inner, hs, hfree, hinner, -, rfl⟩ := splitEdit_eq_ok hedit
  obtain ⟨hmem, rfl⟩ := mem_of_segment? hs
  obtain rfl : inner = b.rect := Rect.ofBox_eq_ok hinner
  split
  · next hc => exact h.useAt?_added hcommit (p := ⟨b.rect, role, true⟩) List.mem_cons_self hc
  · next hc =>
      by_cases hcs : c ∈ s.rect
      · -- the rest of the segment is used as before
        obtain ⟨p, hp, hcp⟩ := (h.exists_piece_iff hcommit).2 ⟨s, hmem, List.mem_singleton_self _, hcs⟩
        rw [h.useAt?_added hcommit hp hcp, h.useAt?_eq hmem hcs]
        rcases List.mem_cons.1 hp with rfl | hrest
        · exact absurd hcp hc
        · obtain ⟨r, -, rfl⟩ := List.mem_map.1 hrest
          rw [hfree]
      · refine (h.keeps_commit hcommit).useAt?_eq h fun v hv hid => ?_
        rwa [h.eq_of_id_eq hv hmem (List.mem_singleton.1 hid)]

theorem WellTiled.keeps_allocAt {id n : Nat} {b : Box} {role : Role}
    (halloc : t.allocAt id b role = .ok (some (n, t'))) : Keeps t (fun s => s.id = id) t' := by
  obtain ⟨e, later, hedit, hcommit⟩ := allocAt_eq_some halloc
  obtain ⟨s, inner, -, -, -, -, rfl⟩ := splitEdit_eq_ok hedit
  exact (h.keeps_commit hcommit).weaken fun v _ hid => List.mem_singleton.1 hid

theorem WellTiled.keeps_partition {id : Nat} {pieces : List Piece} {ids : List Nat}
    (hpartition : t.partition id pieces = .ok (ids, t')) : Keeps t (fun s => s.id = id) t' :=
  (h.keeps_commit (partition_eq_ok hpartition)).weaken fun _ _ hid => List.mem_singleton.1 hid

end Operations

/-! ### Operations -/

def Operation.Names (t : Tiling) : Operation → Segment → Prop
  | .split id _, s => s.id = id
  | .commit e, s => s.id ∈ e.removed
  | .partition id _, s => s.id = id
  | .alloc id _ _ _, s => s.id = id
  | .allocAt id _ _, s => s.id = id
  | .mergeHorizontal a b, s => s.id ∈ [a, b]
  | .mergeVertical a b, s => s.id ∈ [a, b]
  | .growRight id, s => s.id = id ∨ ∃ w ∈ t.segments, w.id = id ∧ s.id ∈ w.right
  | .growDown id, s => s.id = id ∨ ∃ w ∈ t.segments, w.id = id ∧ s.id ∈ w.below
  | .mergeColumns, s => s.isFree = true
  | .mergeRows, s => s.isFree = true
  | .setRole _ _ _, _ => False
  | .release _, _ => False

def Operation.reshapes : Operation → Bool
  | .split _ _ | .mergeHorizontal _ _ | .mergeVertical _ _ | .growRight _ | .growDown _ | .mergeColumns
  | .mergeRows => true
  | _ => false

def Operation.edits : Operation → Bool
  | .setRole _ _ _ | .release _ => false
  | _ => true

theorem WellTiled.reshapes_perform (h : t.WellTiled) {op : Operation} {reply : Reply}
    (hop : op.reshapes = true) (hperform : t.perform op = .ok (t', reply)) : Reshapes t (op.Names t) t' := by
  have hpair {join? : Rect → Rect → Option Rect} {a b n : Nat} {v : Tiling}
      (hmerge : t.mergePair join? a b = .ok (some (n, v))) : Reshapes t (fun s => s.id ∈ [a, b]) v :=
    (h.reshapes_mergePair hmerge).weaken fun s _ hs => hs.1
  cases op with
  | split id b => exact of_replyMade (.refl h) (fun ids v hsplit => h.reshapes_split hsplit) hperform
  | mergeHorizontal a b => exact of_replyFound (.refl h) (fun n v hmerge => hpair hmerge) hperform
  | mergeVertical a b => exact of_replyFound (.refl h) (fun n v hmerge => hpair hmerge) hperform
  | growRight id =>
      refine of_replyFound (.refl h) (fun n v hgrow => ?_) hperform
      obtain ⟨s, rects, merged, leftovers, hs, hfree, hrects, hmerge⟩ := Growth.run_eq_some (g := .right) hgrow
      exact h.reshapes_grow Segment.right hs hfree hrects hmerge
  | growDown id =>
      refine of_replyFound (.refl h) (fun n v hgrow => ?_) hperform
      obtain ⟨s, rects, merged, leftovers, hs, hfree, hrects, hmerge⟩ := Growth.run_eq_some (g := .down) hgrow
      exact h.reshapes_grow Segment.below hs hfree hrects hmerge
  | mergeColumns => exact of_replyCount (fun n v hmerge => h.reshapes_mergeAligned hmerge) hperform
  | mergeRows => exact of_replyCount (fun n v hmerge => h.reshapes_mergeAligned hmerge) hperform
  | commit _ | partition _ _ | alloc _ _ _ _ | allocAt _ _ _ | setRole _ _ _ | release _ => cases hop

theorem WellTiled.keeps_perform (h : t.WellTiled) {op : Operation} {reply : Reply}
    (hop : op.edits = true) (hperform : t.perform op = .ok (t', reply)) : Keeps t (op.Names t) t' := by
  cases op with
  | commit e => exact of_replyMade (.refl h) (fun ids v hcommit => h.keeps_commit hcommit) hperform
  | partition id pieces => exact of_replyMade (.refl h) (fun ids v hmade => h.keeps_partition hmade) hperform
  | alloc id height width role =>
      refine of_replyFound (.refl h) (fun n v halloc => ?_) hperform
      obtain ⟨b, halloc⟩ := alloc_eq_some halloc
      exact h.keeps_allocAt halloc
  | allocAt id b role => exact of_replyFound (.refl h) (fun n v halloc => h.keeps_allocAt halloc) hperform
  | setRole id role allocated => cases hop
  | release id => cases hop
  | split _ _ | mergeHorizontal _ _ | mergeVertical _ _ | growRight _ | growDown _ | mergeColumns | mergeRows =>
      exact (h.reshapes_perform rfl hperform).keeps

/-! ### Numbers -/

theorem Change.nextId_le (h : Change t t') : t.nextId ≤ t'.nextId := by
  cases h with
  | commit hcommit =>
      obtain ⟨-, -, -, rfl⟩ := commit_eq_ok_iff.1 hcommit
      exact Nat.le_add_right ..
  | setRole hset =>
      obtain ⟨-, rfl⟩ := setRole_eq_ok_iff.1 hset
      exact le_rfl

theorem Change.origin (h : Change t t') (hwell : t.WellTiled) :
    ∀ v ∈ t'.segments, (∃ s ∈ t.segments, s.id = v.id ∧ s.rect = v.rect) ∨ t.nextId ≤ v.id := by
  intro v hv
  cases h with
  | commit hcommit =>
      refine ((hwell.keeps_commit hcommit).origin v hv).imp_left ?_
      rintro ⟨s, hs, halike⟩
      exact ⟨s, hs, halike.id.symm, halike.rect.symm⟩
  | setRole hset =>
      obtain ⟨-, rfl⟩ := setRole_eq_ok_iff.1 hset
      obtain ⟨s, hs, rfl⟩ := List.mem_map.1 hv
      refine .inl ⟨s, hs, ?_⟩
      split <;> exact ⟨rfl, rfl⟩

theorem Changes.nextId_le (h : Changes t t') : t.nextId ≤ t'.nextId := by
  induction h with
  | refl => exact le_rfl
  | tail _ hchange ih => exact ih.trans hchange.nextId_le

/-- A segment is one that was there with its rectangle, or has a number that was not given out yet. -/
theorem Changes.origin (h : Changes t t') (hwell : t.WellTiled) :
    ∀ v ∈ t'.segments, (∃ s ∈ t.segments, s.id = v.id ∧ s.rect = v.rect) ∨ t.nextId ≤ v.id := by
  induction h with
  | refl => exact fun v hv => .inl ⟨v, hv, rfl, rfl⟩
  | tail hreach hchange ih =>
      intro v hv
      rcases hchange.origin (hwell.changes hreach) v hv with ⟨s, hs, hid, hrect⟩ | hnew
      · rcases ih s hs with ⟨w, hw, hwid, hwrect⟩ | hnew
        · exact .inl ⟨w, hw, hwid.trans hid, hwrect.trans hrect⟩
        · exact .inr (hid ▸ hnew)
      · exact .inr ((Changes.nextId_le hreach).trans hnew)

/-- What every operation leaves alone. -/
structure Framed (t : Tiling) : Prop where
  /-- Cutting and joining segments changes neither use nor flag of any cell. -/
  reshape : ∀ op t' reply, op.reshapes = true → t.perform op = .ok (t', reply) →
    ∀ c, t'.useAt? c = t.useAt? c
  /-- Allocating a box sets its cells and no others. -/
  allocAt : ∀ id b role n t', t.allocAt id b role = .ok (some (n, t')) →
    ∀ c, t'.useAt? c = if c ∈ b.rect then some (role, true) else t.useAt? c
  /-- An edit changes cells of the segments it removes only. -/
  commit : ∀ e ids t', t.commit e = .ok (ids, t') →
    ∀ c, (∀ s ∈ t.segments, s.id ∈ e.removed → c ∉ s.rect) → t'.useAt? c = t.useAt? c
  /-- Replacing a segment changes cells of that segment only. -/
  partition : ∀ id pieces ids t', t.partition id pieces = .ok (ids, t') →
    ∀ c, (∀ s ∈ t.segments, s.id = id → c ∉ s.rect) → t'.useAt? c = t.useAt? c
  /-- A segment stays as it is, links apart, or is named and gone. -/
  kept : ∀ op t' reply, op.edits = true → t.perform op = .ok (t', reply) → ∀ s ∈ t.segments,
    (∃ u ∈ t'.segments, s.Alike u) ∨ (op.Names t s ∧ ∀ u ∈ t'.segments, u.id ≠ s.id)

/-- How numbers are given out on the way from a first tiling to `t`, whatever tilings it leads through. -/
structure Numbered (start t : Tiling) : Prop where
  /-- A segment that an operation adds has a number above all that were ever used. -/
  above : ∀ op t' reply, t.perform op = .ok (t', reply) → ∀ a ∈ t'.segments,
    (∃ s ∈ t.segments, s.id = a.id) ∨
      ∀ u, Changes start u → Changes u t → ∀ s ∈ u.segments, s.id < a.id
  /-- A number stands for the same rectangle whenever it is in use, and is in use all the time between. -/
  once : ∀ u v, Changes start u → Changes u v → Changes v t → ∀ s ∈ u.segments, ∀ s' ∈ t.segments,
    s'.id = s.id → s'.rect = s.rect ∧ ∃ w ∈ v.segments, w.id = s.id

theorem WellTiled.framed (h : t.WellTiled) : t.Framed where
  reshape _ _ _ hop hperform := (h.reshapes_perform hop hperform).useAt?
  allocAt _ _ _ _ _ halloc := h.useAt?_allocAt halloc
  commit _ _ _ hcommit _ hc := (h.keeps_commit hcommit).useAt?_eq h hc
  partition _ _ _ _ hpartition _ hc := (h.keeps_partition hpartition).useAt?_eq h hc
  kept _ _ _ hop hperform := (h.keeps_perform hop hperform).kept

theorem WellTiled.numbered {start : Tiling} (hstart : start.WellTiled) (hreach : Changes start t) :
    Numbered start t where
  above _ _ _ hperform a ha := by
    rcases (changes_of_perform hperform).origin (hstart.changes hreach) a ha with ⟨s, hs, hid, -⟩ | hnew
    · exact .inl ⟨s, hs, hid⟩
    · refine .inr fun v hv hvt s hs => ?_
      have hlt := (hstart.changes hv).lt_nextId s hs
      have hle := hvt.nextId_le
      omega
  once v w hv hvw hwt s hs s' hs' hid := by
    have hwell := hstart.changes hv
    have hlt := hwell.lt_nextId s hs
    have hle := hvw.nextId_le
    constructor
    · rcases Changes.origin (hvw.trans hwt) hwell s' hs' with ⟨x, hx, hxid, hrect⟩ | hnew
      · rw [← hrect, hwell.eq_of_id_eq hx hs (hxid.trans hid)]
      · omega
    · rcases hwt.origin (hwell.changes hvw) s' hs' with ⟨x, hx, hxid, -⟩ | hnew
      · exact ⟨x, hx, hxid.trans hid⟩
      · omega

/-- Operations change only what they name, on every tiling that operations lead to, and no number is used twice. -/
theorem operations_change_named_only {height width : Nat} {ops : List Operation} {t : Tiling}
    (hreach : (ofSize height width).performAll ops = .ok t) :
    t.Framed ∧ Numbered (ofSize height width) t := by
  have hstart := wellTiled_ofSize height width
  have hchanges := changes_of_performAll hreach
  exact ⟨(hstart.changes hchanges).framed, hstart.numbered hchanges⟩

/-! A grid with a corner cut off and a cell of the rest allocated. -/

namespace Corner

def ops : List Operation := [.split 0 ⟨0, 0, 1, 2⟩, .alloc 2 1 1 .register]

def tiling : Tiling :=
  { height := 2
    width := 3
    segments :=
      [{ id := 1, rect := ⟨0, 0, 1, 2⟩, allocated := false, role := .unassigned,
         above := [], below := [4, 5], left := [], right := [3] },
       { id := 3, rect := ⟨0, 2, 1, 3⟩, allocated := false, role := .unassigned,
         above := [], below := [5], left := [1], right := [] },
       { id := 4, rect := ⟨1, 0, 2, 1⟩, allocated := true, role := .register,
         above := [1], below := [], left := [], right := [5] },
       { id := 5, rect := ⟨1, 1, 2, 3⟩, allocated := false, role := .unassigned,
         above := [1, 3], below := [], left := [4], right := [] }]
    nextId := 6 }

end Corner

/-- The upper row is joined again, and the last cell of the grid allocated. -/
theorem corner_framed : (ofSize 2 3).performAll Corner.ops = .ok Corner.tiling ∧
    (∃ joined, Corner.tiling.perform (.mergeHorizontal 1 3) = .ok (joined, .found (some 6)) ∧
      ∀ c, joined.useAt? c = Corner.tiling.useAt? c) ∧
    ∃ taken, Corner.tiling.allocAt 5 ⟨1, 2, 1, 1⟩ .io = .ok (some (6, taken)) ∧
      ∀ c, taken.useAt? c = if c ∈ (⟨1, 2, 2, 3⟩ : Rect) then some (.io, true) else Corner.tiling.useAt? c := by
  have hreach : (ofSize 2 3).performAll Corner.ops = .ok Corner.tiling := by decide +kernel
  obtain ⟨hframed, -⟩ := operations_change_named_only hreach
  exact ⟨hreach, ⟨_, rfl, hframed.reshape (.mergeHorizontal 1 3) _ _ rfl rfl⟩,
    ⟨_, rfl, hframed.allocAt 5 ⟨1, 2, 1, 1⟩ .io 6 _ rfl⟩⟩

end Tiling

end SurfaceFabric
