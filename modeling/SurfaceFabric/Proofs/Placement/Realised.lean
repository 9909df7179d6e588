import SurfaceFabric.Proofs.Mapping
import SurfaceFabric.Proofs.PathSearch
import SurfaceFabric.Proofs.Placement.Ownership

/-!
A placed layout is what its plan asks for. Each factory gets a body of its template's size when its turn comes
and keeps it, and cells with other than common roles are those of the bodies and of the I/O strip.
-/

namespace SurfaceFabric

/-- The order in which factories are placed: larger ones first, those of one area as they stand in the plan. -/
structure Plan.Order (plan : Plan) (templates : List Template) : Prop where
  descending : templates.Pairwise fun a b => b.width * b.height ≤ a.width * a.height
  stable : ∀ area, (templates.filter fun t => t.width * t.height = area) =
    plan.factories.filter fun t => t.width * t.height = area

theorem Plan.order_byArea {plan : Plan} {templates : List Template} (h : plan.byArea = .ok templates) :
    plan.Order templates := by
  rw [byArea_eq_ok h]
  refine ⟨pairwise_sortBy (fun hab hbc => hbc.trans hab) (List.pairwise_of_forall fun a b => ?_), fun area => ?_⟩
  · split
    · next hle => exact of_decide_eq_true hle
    · next hle =>
        rw [decide_eq_true_eq] at hle
        omega
  · apply filter_sortBy
    intro a b ha hb
    simp only [decide_eq_true_eq] at ha hb ⊢
    omega

namespace Tiling

/-- The segments of a role have no more cells than show it. -/
theorem WellTiled.sum_cellCount_le {t : Tiling} (h : t.WellTiled) (role : Role) :
    ((t.segments.filter fun s => s.role == role).map fun s => s.rect.cellCount).sum ≤
      ((LockGrid.allCells t.height t.width).filter fun c => t.roleAt? c = some role).length := by
  let rects := (t.segments.filter fun s => s.role == role).map Segment.rect
  let shown := (LockGrid.allCells t.height t.width).filter fun c => t.roleAt? c = some role
  have hapart : rects.Pairwise Rect.Apart := by
    rw [List.pairwise_map]
    refine (h.ascending.filter _).imp_of_mem fun hs hu hlt => ?_
    exact h.apart _ (List.mem_filter.1 hs).1 _ (List.mem_filter.1 hu).1 (Nat.ne_of_lt hlt)
  have hsubset : Rect.union rects ⊆ (shown.map fun c => (c.y, c.x)).toFinset := by
    intro p hp
    obtain ⟨r, hr, hmem⟩ := Rect.mem_union.1 hp
    obtain ⟨s, hs, rfl⟩ := List.mem_map.1 hr
    obtain ⟨hs, hrole⟩ := List.mem_filter.1 hs
    obtain ⟨-, hy, -, hx⟩ := Rect.mem_iff.1 (h.bounded s hs _ hmem)
    rw [List.mem_toFinset, List.mem_map]
    refine ⟨⟨p.1, p.2⟩, List.mem_filter.2 ⟨LockGrid.mem_allCells.2 ⟨hy, hx⟩, ?_⟩, rfl⟩
    rw [decide_eq_true_eq, h.roleAt?_eq hs hmem, beq_iff_eq.1 hrole]
  calc ((t.segments.filter fun s => s.role == role).map fun s => s.rect.cellCount).sum
      = (Rect.union rects).card := by
        rw [Rect.card_union hapart, List.map_map]
        rfl
    _ ≤ (shown.map fun c => (c.y, c.x)).toFinset.card := Finset.card_le_card hsubset
    _ ≤ (shown.map fun c => (c.y, c.x)).length := List.toFinset_card_le _
    _ = shown.length := List.length_map _

end Tiling

namespace Layout

open Tiling

variable {t t' : Tiling} {l l' : Layout} {grid : Rect} {anchor : Cell} {template : Template}

/-- A factory made after a template, with a body of its size. -/
def Follows (t : Tiling) (u : FactoryUnit) (template : Template) : Prop :=
  u.template = template.symbol ∧ u.cycles = template.cycles ∧ ∃ y x,
    t.Stands u.segment ⟨y, x, y + template.height, x + template.width⟩ (.factory u.handle)

theorem Follows.builds {u : FactoryUnit} (h : Follows t u template) (hwell : t.WellTiled)
    (hbuilds : Builds t t') : Follows t' u template := by
  obtain ⟨hsymbol, hcycles, y, x, hstands⟩ := h
  exact ⟨hsymbol, hcycles, y, x, hbuilds.stands hwell (by simp) hstands⟩

/-- Placing factories one after another: each follows its template, and only their cells get other than common
roles. -/
theorem placeFactories_adds {templates done : List Template} (hfounded : Founded l grid anchor)
    (hdone : List.Forall₂ (Follows l.tiling) l.units done)
    (hplace : templates.foldlM Layout.placeFactory l = .ok l') :
    List.Forall₂ (Follows l'.tiling) l'.units (done ++ templates) ∧ ∀ c role, l'.tiling.roleAt? c = some role →
      role.isCommon = true ∨ (∃ handle, role = .factory handle) ∨ l.tiling.roleAt? c = some role := by
  induction templates generalizing l done with
  | nil =>
      cases hplace
      rw [List.append_nil]
      exact ⟨hdone, fun _ _ hc => .inr (.inr hc)⟩
  | cons template rest ih =>
      rw [List.foldlM_cons] at hplace
      obtain ⟨next, hnext, hrest⟩ := bind_eq_ok_iff.1 hplace
      have hwell := hfounded.served.wellTiled
      obtain ⟨site, id, hbuilds, hunits, hbody, hroles⟩ := placeFactory_adds hwell hnext
      have hmade : List.Forall₂ (Follows next.tiling) next.units (done ++ [template]) := by
        rw [hunits]
        refine List.rel_append (hdone.imp fun _ _ h => h.builds hwell hbuilds) (.cons ?_ .nil)
        exact ⟨rfl, rfl, site.y, site.x, hbody⟩
      obtain ⟨hall, hlater⟩ := ih (hfounded.placeFactory hnext).1 hmade hrest
      rw [List.append_assoc] at hall
      refine ⟨hall, fun c role hc => ?_⟩
      rcases hlater c role hc with hcommon | hfactory | hc
      · exact .inl hcommon
      · exact .inr (.inl hfactory)
      · rcases hroles c role hc with hcommon | hold | ⟨hnew, -⟩
        · exact .inl hcommon
        · exact .inr (.inr hold)
        · exact .inr (.inl ⟨_, hnew⟩)

variable {c : Circuit} {height width : Nat} {plan : Plan}

/-- The factories of a placed layout, and the cells with other than common roles. -/
theorem place_adds (h : place c height width plan = .ok l) :
    (∃ templates, plan.Order templates ∧ List.Forall₂ (Follows l.tiling) l.units templates) ∧
      ∀ cell role, l.tiling.roleAt? cell = some role → role.isCommon = true ∨ (∃ handle, role = .factory handle) ∨
        role = .io ∧ cell.y + 1 = height ∧ cell.x < c.ioCount := by
  obtain ⟨start, templates, built, _, hio, hstart, htemplates, hbuilt, hl, hlater, hadds, -⟩ := place_stages h
  obtain ⟨-, -, hnone, -⟩ := placeIo_eq_ok hio
  have hnew : List.Forall₂ (Follows start.tiling) start.units [] := hnone ▸ .nil
  obtain ⟨hmade, hroles⟩ := placeFactories_adds hstart hnew hbuilt
  refine ⟨⟨templates, Plan.order_byArea htemplates, ?_⟩, fun cell role hc => ?_⟩
  · rw [hl]
    exact hmade.imp fun _ _ hu => hu.builds (hstart.placeFactories hbuilt).1.served.wellTiled hlater
  · rcases hadds cell role hc with hcommon | hc
    · exact .inl hcommon
    rcases hroles cell role hc with hcommon | hfactory | hc
    · exact .inl hcommon
    · exact .inr (.inl hfactory)
    · exact ((placeIo_strip hio).1 cell role hc).imp_right .inr

/-- The main row and the strip of a placed layout. -/
theorem place_stands (h : place c height width plan = .ok l) :
    (∃ id, l.tiling.Stands id ⟨mainRow height c.ioCount, 0, mainRow height c.ioCount + 1, width⟩ .route) ∧
      (0 < c.ioCount → ∃ id, l.tiling.Stands id ⟨height - 1, 0, height, c.ioCount⟩ .io) := by
  obtain ⟨start, _, built, _, hio, hstart, -, hbuilt, -, hlater, -⟩ := place_stages h
  have hwell := hstart.served.wellTiled
  have hbuilds : Builds start.tiling l.tiling := (hstart.placeFactories hbuilt).2.1.trans hlater
  obtain ⟨-, -, -, id, hmain⟩ := placeIo_eq_ok hio
  refine ⟨⟨id, hbuilds.stands hwell (by simp) hmain⟩, fun hpos => ?_⟩
  obtain ⟨id, hstrip⟩ := (placeIo_strip hio).2 hpos
  exact ⟨id, hbuilds.stands hwell (by simp) hstrip⟩

/-- A layout as a plan asks for it: the factories in order, each with a body that has all cells of its role, the I/O
strip in the lowest row, the main row, and registers for the circuit. -/
structure Realises (l : Layout) (c : Circuit) (height width : Nat) (plan : Plan) : Prop where
  factories : ∃ templates, plan.Order templates ∧ List.Forall₂ (Follows l.tiling) l.units templates
  handles : ∀ (i : Nat) (u : FactoryUnit), l.units[i]? = some u → u.handle = i
  owned : l.Owned
  io : ∀ cell, l.tiling.roleAt? cell = some .io ↔ cell.y + 1 = height ∧ cell.x < c.ioCount
  mainRow : ∀ x < width, l.tiling.roleAt? ⟨mainRow height c.ioCount, x⟩ = some .route
  registers : c.registerCount ≤
    ((LockGrid.allCells height width).filter fun cell => l.tiling.roleAt? cell = some .register).length
  no_intermediary : ∀ cell, l.tiling.roleAt? cell ≠ some .intermediary

end Layout

open Tiling Layout in
/-- Whatever is placed realises its plan. -/
theorem place_realises_plan {c : Circuit} {height width : Nat} {plan : Plan} {l : Layout}
    (h : Layout.place c height width plan = .ok l) : l.Realises c height width plan := by
  obtain ⟨⟨_, hfounded⟩, howned, hcapacity⟩ := founded_on_grid h
  obtain ⟨hheight, hwidth⟩ := size_of_place h
  obtain ⟨hfactories, hspecial⟩ := place_adds h
  obtain ⟨⟨_, hmain⟩, hstrip⟩ := place_stands h
  have hwell := hfounded.served.wellTiled
  refine ⟨hfactories, hfounded.numbered, howned, fun cell => ⟨fun hc => ?_, ?_⟩, fun x hx => ?_, ?_, fun cell hc => ?_⟩
  · rcases hspecial cell .io hc with hcommon | ⟨_, hfactory⟩ | ⟨-, hcell⟩
    · cases hcommon
    · cases hfactory
    · exact hcell
  · rintro ⟨hy, hx⟩
    obtain ⟨_, hio⟩ := hstrip (by omega)
    apply hio.roleAt? hwell
    rw [Rect.mem_iff]
    dsimp only
    omega
  · apply hmain.roleAt? hwell
    rw [Rect.mem_iff]
    dsimp only
    omega
  · obtain ⟨⟨n, hn, hle⟩, -⟩ := Mapping.checkCapacity_eq_ok hcapacity
    rw [Mapping.capacity_eq_ok hn] at hle
    rw [← hheight, ← hwidth]
    exact hle.trans (hwell.sum_cellCount_le .register)
  · rcases hspecial cell .intermediary hc with hcommon | ⟨_, hfactory⟩ | ⟨hio, -⟩
    · cases hcommon
    · cases hfactory
    · cases hio

theorem crowded_realised : ∃ l, Layout.place Crowded.circuit 6 6 Crowded.plan = .ok l ∧
    l.Realises Crowded.circuit 6 6 Crowded.plan := by
  obtain ⟨l, hplace, -⟩ := exists_ok_of_any (x := Layout.place Crowded.circuit 6 6 Crowded.plan) (p := fun _ => True)
    (by decide +kernel)
  exact ⟨l, hplace, place_realises_plan hplace⟩

end SurfaceFabric
