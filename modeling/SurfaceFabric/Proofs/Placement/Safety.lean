import SurfaceFabric.Proofs.Placement.Factory
import SurfaceFabric.Proofs.Placement.Fill
import SurfaceFabric.Proofs.Placement.Place
import SurfaceFabric.Proofs.Tiling.Grow

/-!
How placement may fail. Whatever it cuts, it cuts by a tiling of what it removes, its connectors go over free
cells, and its routing is in one piece from the first row on, so none of its edits is refused and nothing has
to be connected. It gives up only where there is no room: for the strip, the main row, a factory, a lane or the
symbols.
-/

namespace SurfaceFabric

def Circuit.demand (c : Circuit) : SlotKind → Nat
  | .register => c.registerCount
  | .io => c.ioCount
  | .factory _ => 0

/-- Refusals for want of room, with what there was no room for. A plan without lanes does not run out of them. -/
def PlacementError.Expected (c : Circuit) (height width : Nat) (plan : Plan) : PlacementError → Prop
  | .gridTooSmall h w => h = height ∧ w = width ∧ (height < 2 ∨ width = 0)
  | .ioExhausted n => n = c.ioCount ∧ width < n
  | .factoryExhausted symbol h w =>
      ∃ template ∈ plan.factories, template.symbol = symbol ∧ template.height = h ∧ template.width = w
  | .laneExhausted => 0 < plan.lanes
  | .insufficientSlots kind required available => required = c.demand kind ∧ available < required
  | .disconnected _ | .geometry _ => False

def Template.Inhabited (template : Template) : Prop := 0 < template.height ∧ 0 < template.width

/-- A template whose block has words for its sizes, and whose cells can be counted in a word. -/
structure Template.InWord (template : Template) : Prop where
  height : template.height + 1 ≤ Word.top
  width : template.width + 1 ≤ Word.top
  area : template.width * template.height ≤ Word.top

namespace Tiling

variable {t t' : Tiling} {e : Edit} {c : Cell} {B : Prop}

/-! ### Connectors -/

theorem FreeAt.commit {ids : List Nat} (h : t.FreeAt c) (hcommit : t.commit e = .ok (ids, t'))
    (hkept : ∀ s ∈ t.segments, s.id ∈ e.removed → c ∉ s.rect) : t'.FreeAt c := by
  obtain ⟨s, hs, hc, hfree⟩ := h
  obtain ⟨-, -, -, rfl⟩ := commit_eq_ok_iff.1 hcommit
  refine ⟨_, mem_replace.2 (.inl ⟨s, hs, fun hid => hkept s hs hid hc, rfl⟩), ?_, ?_⟩
  · rwa [relinked_rect]
  · rwa [Segment.isFree, relinked_allocated, relinked_role]

/-- A free piece of an edit is a free segment after it. -/
theorem exists_free_of_commit {ids : List Nat} {r : Rect} (hr : .free r ∈ e.added)
    (hcommit : t.commit e = .ok (ids, t')) : ∃ s ∈ t'.segments, s.rect = r ∧ s.isFree = true := by
  obtain ⟨-, -, -, rfl⟩ := commit_eq_ok_iff.1 hcommit
  obtain ⟨n, hn⟩ := exists_mem_fresh t.nextId hr
  exact ⟨_, mem_replace.2 (.inr ⟨_, hn, rfl⟩), rfl, rfl⟩

/-- Allocating a box leaves the other cells of a free segment free. -/
theorem WellTiled.freeAt_allocAt (h : t.WellTiled) {s : Segment} {n : Nat} {b : Box} {role : Role}
    (hs : s ∈ t.segments) (halloc : t.allocAt s.id b role = .ok (some (n, t'))) (hc : t.FreeAt c)
    (hout : c ∉ b.rect) : t'.FreeAt c := by
  obtain ⟨e, later, hsplit, hcommit⟩ := allocAt_eq_some halloc
  obtain ⟨s', inner, hs', hallocated, hbox, ⟨hinner, hincludes⟩, rfl⟩ := splitEdit_eq_ok hsplit
  obtain rfl := h.eq_of_id_eq (mem_of_segment? hs').1 hs (mem_of_segment? hs').2
  obtain rfl := Rect.ofBox_eq_ok hbox
  by_cases hcs : c ∈ s'.rect
  · obtain ⟨u, hu, hcu, hfree⟩ := hc
    obtain rfl := h.eq_of_mem hu hs hcu hcs
    obtain ⟨r, hr, hcr⟩ := ((Rect.tiles_remainder hinner hincludes).exact c).1 hcs
    rcases List.mem_cons.1 hr with rfl | hr
    · exact absurd hcr hout
    · have hpiece : .free r ∈ (claimFirst role ⟨[u.id], (b.rect :: u.rect.remainder b.rect).map
          fun r => ⟨r, u.role, false⟩⟩).added := by
        rw [role_of_isFree hfree]
        exact List.mem_cons_of_mem _ (List.mem_map_of_mem hr)
      obtain ⟨v, hv, rfl, hvfree⟩ := exists_free_of_commit hpiece hcommit
      exact ⟨v, hv, hcr, hvfree⟩
  · refine hc.commit hcommit fun u hu hid => ?_
    rwa [h.eq_of_id_eq hu hs (List.mem_singleton.1 hid)]

/-- A connector over free cells is never refused. -/
theorem WellTiled.failsOnly_carveConnector (h : t.WellTiled) {x y stop : Nat}
    (hclear : ∀ k, y ≤ k → k < stop → t.FreeAt ⟨k, x⟩) (hB : B → t.InWord) :
    FailsOnly (Stop.Allowed B fun _ => False) (t.carveConnector x stop y) := by
  induction hleft : stop - y using Nat.strong_induction_on generalizing t y with
  | _ left ih =>
      rw [carveConnector]
      refine .ite (fun hlt => ?_) fun _ => .pure _
      obtain ⟨s, hs, hc, hfree⟩ := hclear y le_rfl hlt
      split
      · next hnone => exact absurd hc (List.find?_eq_none.1 hnone s hs)
      · next s' hat =>
          obtain ⟨hs', hc'⟩ := h.at?_eq_some_iff.1 hat
          obtain rfl := h.eq_of_mem hs' hs hc' hc
          have hcell := Rect.mem_iff.1 hc
          dsimp only at hcell
          refine (FailsOnly.lift (Word.failsOnly_sub fun _ => by omega)).bind fun length hlength => ?_
          obtain ⟨-, rfl⟩ := Word.sub_eq_ok_iff.1 (Outcome.liftM_eq_ok_iff.1 hlength)
          have hbox : (Box.rect ⟨y, x, min s'.rect.y1 stop - y, 1⟩).Inhabited ∧
              s'.rect.includes (Box.rect ⟨y, x, min s'.rect.y1 stop - y, 1⟩) = true := by
            simp only [Rect.Inhabited, Rect.includes, Bool.and_eq_true, decide_eq_true_eq]
            simp only [Box.rect]
            omega
          refine (FailsOnly.lift (h.failsOnly_allocAt hs fun hb => ⟨hB hb, ?_⟩)).bind fun found hfound => ?_
          · have := h.inWord (hB hb) hs
            simp only [Rect.InWord] at this
            dsimp only
            omega
          rw [Outcome.liftM_eq_ok_iff] at hfound
          cases found with
          | none => exact absurd hfound (h.allocAt_ne_none hs (allocated_of_isFree hfree) hbox.1 hbox.2)
          | some made =>
              obtain ⟨-, -, hwell, hgrid, -⟩ := h.allocAt hs hfound
              refine ih _ (by omega) hwell (fun k hk hstop => ?_) (fun hb => inWord_of_grid hgrid (hB hb)) rfl
              refine h.freeAt_allocAt hs hfound (hclear k (by omega) hstop) fun hk' => ?_
              rw [Rect.mem_iff, Box.rect] at hk'
              dsimp only at hk'
              omega

/-! ### Filling -/

section Fill

variable (h : t.WellTiled) {s : Segment} (hs : s ∈ t.segments) (hfree : s.isFree = true) (hB : B → t.InWord)

include h hs hfree hB

/-- A free segment can be replaced by a tiling of a band of it and the rest. -/
theorem WellTiled.failsOnly_carve {band : Rect} {pieces : List Piece} (hband : band.Inhabited)
    (hincludes : s.rect.includes band = true) (htiles : band.Tiles (pieces.map Piece.rect)) :
    FailsOnly (Stop.Allowed B fun _ => False) (t.carve s band pieces) := by
  have hall := (Rect.tiles_remainder hband hincludes).graft htiles.filter
  refine (FailsOnly.mapRefusal (h.failsOnly_partition hs (allocated_of_isFree hfree) ?_ ?_ hB)).bind
    fun _ _ => .pure _
  · simpa [List.filter_map, Function.comp_def, Piece.free] using hall
  · intro p hp
    rcases List.mem_append.1 hp with hp | hp
    · simpa [Rect.isEmpty_eq_false_iff] using (List.mem_filter.1 hp).2
    · obtain ⟨r, hr, rfl⟩ := List.mem_map.1 hp
      exact Rect.inhabited_of_remainder hr

theorem WellTiled.failsOnly_stack {base : Side} :
    FailsOnly (Stop.Allowed B fun _ => False) (t.stack s base) := by
  have hr := h.inhabited s hs
  refine (FailsOnly.lift (failsOnly_stackPieces hr fun hb => h.inWord (hB hb) hs)).bind fun plan hplan => ?_
  obtain rfl := stackPieces_eq_ok (Outcome.liftM_eq_ok_iff.1 hplan)
  have hplan := @tiles_stackPlan t s.rect base hr
  exact h.failsOnly_carve hs hfree hB hplan.2.1 hplan.1 hplan.2.2

/-- A box of a free segment can be taken. -/
theorem WellTiled.failsOnly_carveBox {b : Box} {role : Role} (hb : b.rect.Inhabited)
    (hincludes : s.rect.includes b.rect = true) : FailsOnly (Stop.Allowed B fun _ => False)
      (liftM (Rect.ofBox b) >>= fun band => t.carve s band [.taken role band]) := by
  refine (FailsOnly.lift (Rect.failsOnly_ofBox fun hB' => ?_)).bind fun band hband => ?_
  · have hword := h.inWord (hB hB') hs
    simp only [Rect.includes, Bool.and_eq_true, decide_eq_true_eq] at hincludes
    exact ⟨hincludes.1.1.2.trans hword.1, hincludes.2.trans hword.2⟩
  · obtain rfl := Rect.ofBox_eq_ok (Outcome.liftM_eq_ok_iff.1 hband)
    exact h.failsOnly_carve hs hfree hB hb hincludes (.singleton _)

theorem WellTiled.failsOnly_routeRow {y : Nat} (hy : s.rect.y0 ≤ y ∧ y < s.rect.y1) :
    FailsOnly (Stop.Allowed B fun _ => False) (t.routeRow s y) := by
  obtain ⟨hrows, hcolumns⟩ := h.inhabited s hs
  refine (FailsOnly.lift (Word.failsOnly_sub fun _ => hcolumns.le)).bind fun w hw => ?_
  obtain ⟨-, rfl⟩ := Word.sub_eq_ok_iff.1 (Outcome.liftM_eq_ok_iff.1 hw)
  obtain ⟨hband, hincludes⟩ := row_included ⟨hrows, hcolumns⟩ hy
  exact h.failsOnly_carveBox hs hfree hB hband hincludes

theorem WellTiled.failsOnly_contactRun {y : Nat} :
    FailsOnly (Stop.Allowed B fun _ => False) (t.contactRun s y) := by
  have hr := h.inhabited s hs
  unfold contactRun
  dsimp only
  split
  · exact h.failsOnly_routeRow hs hfree hB ⟨le_rfl, hr.1⟩
  · next x rest hcolumns =>
      obtain ⟨hband, hincludes⟩ := run_included hr hcolumns
      exact h.failsOnly_carveBox hs hfree hB hband hincludes

end Fill

theorem failsOnly_fillStep {r : Rect} (hr : r.Inhabited) : FailsOnly (Fault.Allowed B) (t.fillStep r) := by
  refine (Word.failsOnly_sub fun _ => hr.1.le).bind fun _ _ => ?_
  refine (Word.failsOnly_sub fun _ => hr.2.le).bind fun _ _ => ?_
  refine .ite (fun _ => .pure _) fun _ => .ite (fun _ => .pure _) fun _ => .ite (fun _ => ?_) fun _ => ?_
  · refine .ite (fun _ => .pure _) fun _ => .ite (fun _ => ?_) fun _ => .pure _
    exact (Word.failsOnly_sub fun _ => Nat.one_le_of_lt hr.1).bind fun _ _ => .pure _
  · refine .ite (fun _ => .pure _) fun _ => .ite (fun habove => ?_) fun _ => .pure _
    refine (Word.failsOnly_sub fun _ => Nat.one_le_iff_ne_zero.2 fun htop => ?_).bind fun _ _ => .pure _
    simp [columnsAbove, htop] at habove

theorem WellTiled.failsOnly_fillFrom (h : t.WellTiled) {n : Nat} {skipped : List Rect} (hB : B → t.InWord) :
    FailsOnly (Stop.Allowed B fun _ => False) (fillFrom n skipped t) := by
  induction n generalizing t skipped with
  | zero => exact .pure _
  | succ n ih =>
      rw [fillFrom]
      refine (FailsOnly.lift (h.failsOnly_mergeFree hB)).bind fun u hu => ?_
      have hchanges := (h.mergeFree (Outcome.liftM_eq_ok_iff.1 hu)).changes
      replace h := h.changes hchanges
      replace hB (hb : B) := (hB hb).changes hchanges
      split
      · exact .pure _
      · next s hfound =>
          obtain ⟨hs, hfree⟩ := mem_freeSegments.1 (List.mem_of_find?_eq_some hfound)
          have hr := h.inhabited s hs
          have hlater {u' : Tiling} {skipped : List Rect} {band : Rect} {pieces : List Piece}
              (hcarve : u.carve s band pieces = .ok u') :
              FailsOnly (Stop.Allowed B fun _ => False) (fillFrom n skipped u') := by
            have hcarved := carved_of_carve h hs hfree hcarve
            exact ih hcarved.wellTiled fun hb => inWord_of_grid hcarved.grid (hB hb)
          refine (FailsOnly.lift (failsOnly_fillStep hr)).bind fun step hstep => ?_
          have hfits := fillStep_fits hr (Outcome.liftM_eq_ok_iff.1 hstep)
          cases step with
          | skip => exact ih h hB
          | stack base =>
              refine (h.failsOnly_stack hs hfree hB).bind fun u' hu' => ?_
              obtain ⟨_, _, hcarve, -⟩ := stack_eq_ok hu'
              exact hlater hcarve
          | routeRow y =>
              obtain ⟨e, he, rfl, -⟩ := hfits
              refine (h.failsOnly_routeRow hs hfree hB ⟨(Rect.mem_iff.1 he).1, (Rect.mem_iff.1 he).2.1⟩).bind
                fun u' hu' => ?_
              obtain ⟨_, _, hcarve, -⟩ := routeRow_eq_ok hu'
              exact hlater hcarve
          | contactRun y =>
              refine (h.failsOnly_contactRun hs hfree hB).bind fun u' hu' => ?_
              obtain ⟨_, _, hcarve, -⟩ := contactRun_eq_ok hu'
              exact hlater hcarve

theorem WellTiled.failsOnly_fillRegisters (h : t.WellTiled) (hB : B → t.InWord) :
    FailsOnly (Stop.Allowed B fun _ => False) t.fillRegisters := by
  have htop : Word.top * 4 + 16 ≤ Long.top := by decide
  refine (FailsOnly.lift ?_).bind fun _ _ => h.failsOnly_fillFrom hB
  refine (Long.failsOnly_mul fun hb => ?_).bind fun area harea => ?_
  · have hword : t.height * t.width ≤ Word.top := hB hb
    omega
  obtain ⟨-, rfl⟩ := Long.mul_eq_ok_iff.1 harea
  refine (Long.failsOnly_mul fun hb => ?_).bind fun area harea => ?_
  · have hword : t.height * t.width ≤ Word.top := hB hb
    omega
  obtain ⟨-, rfl⟩ := Long.mul_eq_ok_iff.1 harea
  refine Long.failsOnly_add fun hb => ?_
  have hword : t.height * t.width ≤ Word.top := hB hb
  omega

end Tiling

namespace Layout

open Tiling

variable {t t' : Tiling} {grid : Rect} {anchor : Cell} {template : Template} {site : Site} {B : Prop}

/-! ### Factories -/

theorem failsOnly_siteIn (hwell : t.WellTiled) {s : Segment} (hs : s ∈ t.segments) {h w : Nat} (hw : 0 < w)
    (hB : B → t.InWord) : FailsOnly (Fault.Allowed B) (siteIn t h w s) := by
  obtain ⟨hy, hx⟩ := hwell.inhabited s hs
  refine (Word.failsOnly_sub fun _ => hy.le).bind fun height hheight => .ite (fun _ => .pure _) fun hfit => ?_
  refine (Word.failsOnly_sub fun _ => hx.le).bind fun width hwidth => .ite (fun _ => .pure _) fun hwide => ?_
  obtain ⟨-, rfl⟩ := Word.sub_eq_ok_iff.1 hheight
  obtain ⟨-, rfl⟩ := Word.sub_eq_ok_iff.1 hwidth
  refine (Word.failsOnly_sub fun _ => by omega).bind fun y _ => ?_
  refine (Word.failsOnly_sub fun _ => by omega).bind fun right hright => ?_
  obtain ⟨-, rfl⟩ := Word.sub_eq_ok_iff.1 hright
  refine FailsOnly.findSomeM? fun x hchoice => ?_
  simp only [List.mem_cons, List.not_mem_nil, or_false] at hchoice
  refine (Word.failsOnly_add fun hb => ?_).bind fun last hlast => ?_
  · have hword := (hwell.inWord (hB hb) hs).2
    omega
  obtain ⟨-, rfl⟩ := Word.add_eq_ok_iff.1 hlast
  exact (Word.failsOnly_sub fun _ => by omega).bind fun _ _ => .pure _

theorem failsOnly_findSite (hwell : t.WellTiled) (hB : B → t.InWord ∧ template.InWord) :
    FailsOnly (Fault.Allowed B) (findSite t template) := by
  refine (Word.failsOnly_add fun hb => (hB hb).2.height).bind fun h _ => ?_
  refine (Word.failsOnly_add fun hb => (hB hb).2.width).bind fun w hw => FailsOnly.findSomeM? fun s hs => ?_
  obtain ⟨-, rfl⟩ := Word.add_eq_ok_iff.1 hw
  exact failsOnly_siteIn hwell (mem_freeSegments.1 hs).1 (Nat.succ_pos _) fun hb => (hB hb).1

theorem failsOnly_findRoom (hwell : t.WellTiled) (hB : B → t.InWord ∧ template.InWord) :
    FailsOnly (Stop.Allowed B fun e => e = .factoryExhausted template.symbol template.height template.width)
      (findRoom t template) := by
  refine (FailsOnly.lift (failsOnly_findSite hwell hB)).bind fun found _ => ?_
  cases found with
  | some site => exact .pure _
  | none =>
      refine (FailsOnly.lift (hwell.failsOnly_growAll fun hb => (hB hb).1)).bind fun u hu => ?_
      have hchanges := (hwell.growAll (Outcome.liftM_eq_ok_iff.1 hu)).changes
      refine (FailsOnly.lift (failsOnly_findSite (hwell.changes hchanges) fun hb =>
        ⟨(hB hb).1.changes hchanges, (hB hb).2⟩)).bind fun found _ => ?_
      cases found with
      | some site => exact .pure _
      | none => exact .refuse rfl

theorem tiles_block (site : Site) (template : Template) : (blockOf site template).Tiles
    [bodyOf site template, rowOf site template, marginOf site template] := by
  refine ⟨?_, fun c => ?_⟩
  · simp only [List.pairwise_cons, List.forall_mem_cons, List.not_mem_nil, false_implies, implies_true, and_true,
      List.Pairwise.nil, Rect.Apart, Rect.mem_iff, bodyOf, rowOf, marginOf]
    and_intros <;> intro c <;> omega
  · simp only [List.mem_cons, List.not_mem_nil, or_false, exists_eq_or_imp, exists_eq_left, Rect.mem_iff, blockOf,
      bodyOf, rowOf, marginOf]
    omega

section Room

variable (hwell : t.WellTiled) (room : Room t template site) (hpos : template.Inhabited)

include hwell room

theorem Room.bounds (hword : t.InWord) :
    site.y + (template.height + 1) ≤ Word.top ∧ site.x + (template.width + 1) ≤ Word.top := by
  have hinside := room.inside
  simp only [Rect.includes, Bool.and_eq_true, decide_eq_true_eq] at hinside
  have hsegment := hwell.inWord hword room.mem
  exact ⟨hinside.1.1.2.trans hsegment.1, hinside.2.trans hsegment.2⟩

theorem Room.failsOnly_blockPieces {handle : Nat} (hB : B → t.InWord) :
    FailsOnly (Fault.Allowed B) (blockPieces site template handle) := by
  have hbounds (hb : B) := room.bounds hwell (hB hb)
  have hwidth : FailsOnly (Fault.Allowed B) (Word.add template.width 1) :=
    Word.failsOnly_add fun hb => by have := hbounds hb; omega
  refine (Word.failsOnly_add fun hb => by have := hbounds hb; omega).bind fun h hh => hwidth.bind fun w hw => ?_
  obtain ⟨-, rfl⟩ := Word.add_eq_ok_iff.1 hh
  obtain ⟨-, rfl⟩ := Word.add_eq_ok_iff.1 hw
  refine (Rect.failsOnly_ofBox hbounds).bind fun _ _ => ?_
  refine (Word.failsOnly_add fun hb => by have := hbounds hb; omega).bind fun x hx => ?_
  obtain ⟨-, rfl⟩ := Word.add_eq_ok_iff.1 hx
  refine (Rect.failsOnly_ofBox fun hb => by have := hbounds hb; dsimp only; omega).bind fun _ _ => ?_
  refine (Rect.failsOnly_ofBox fun hb => by have := hbounds hb; dsimp only; omega).bind fun _ _ => ?_
  refine (Word.failsOnly_add fun hb => by have := hbounds hb; omega).bind fun y hy => hwidth.bind fun w hw => ?_
  obtain ⟨-, rfl⟩ := Word.add_eq_ok_iff.1 hy
  obtain ⟨-, rfl⟩ := Word.add_eq_ok_iff.1 hw
  exact (Rect.failsOnly_ofBox fun hb => by have := hbounds hb; dsimp only; omega).bind fun _ _ => .pure _

/-- Below a block the column of its connector is free, before it is cut out and after. -/
theorem Room.clear_of_partition {u : Tiling} {pieces : List Piece} {ids : List Nat}
    (hpart : t.partition site.segment.id pieces = .ok (ids, u)) (k : Nat)
    (hk : site.y + template.height + 1 ≤ k) (hstop : k < site.stop) : u.FreeAt ⟨k, site.x + template.width⟩ := by
  refine (room.clear k hk hstop).commit (partition_eq_ok hpart) fun s hs hid hc => ?_
  rw [hwell.eq_of_id_eq hs room.mem (List.mem_singleton.1 hid)] at hc
  have hrow := (Rect.mem_iff.1 hc).2.1
  rw [← room.bottom] at hrow
  exact absurd hk (Nat.not_le.2 hrow)

include hpos

/-- A block can be cut out of the segment of its site. -/
theorem Room.failsOnly_partition {handle : Nat} (hB : B → t.InWord) :
    FailsOnly (Stop.Allowed B fun _ => False) (t.partition site.segment.id
      (block site template handle (site.segment.rect.remainder (blockOf site template)))) := by
  have hblock : (blockOf site template).Inhabited := ⟨by simp [blockOf], by simp [blockOf]⟩
  have hall := (Rect.tiles_remainder hblock room.inside).graft (tiles_block site template)
  refine hwell.failsOnly_partition room.mem (allocated_of_isFree room.isFree) ?_ ?_ hB
  · simpa [block, apply_ite Piece.rect, Piece.taken, Piece.free, Function.comp_def] using hall
  · intro p hp
    simp only [block, List.mem_cons] at hp
    rcases hp with rfl | rfl | rfl | hp
    · exact ⟨Nat.lt_add_of_pos_right hpos.1, Nat.lt_add_of_pos_right hpos.2⟩
    · exact ⟨Nat.lt_succ_self _, Nat.lt_add_of_pos_right (Nat.succ_pos _)⟩
    · rw [apply_ite Piece.rect, Piece.taken, Piece.free, ite_self]
      exact ⟨Nat.lt_add_of_pos_right hpos.1, Nat.lt_succ_self _⟩
    · obtain ⟨r, hr, rfl⟩ := List.mem_map.1 hp
      exact Rect.inhabited_of_remainder hr

end Room

/-- A factory is refused only for want of room. -/
theorem Founded.failsOnly_placeFactory {l : Layout} (h : Founded l grid anchor) (hpos : template.Inhabited)
    (hB : B → l.tiling.InWord ∧ template.InWord) :
    FailsOnly (Stop.Allowed B fun e => e = .factoryExhausted template.symbol template.height template.width)
      (l.placeFactory template) := by
  have hwell := h.served.wellTiled
  refine (FailsOnly.lift (hwell.failsOnly_mergeFree fun hb => (hB hb).1)).bind fun merged hmerged => ?_
  have hmerge := hwell.mergeFree (Outcome.liftM_eq_ok_iff.1 hmerged)
  replace hwell := hwell.changes hmerge.changes
  replace hB (hb : B) : merged.InWord ∧ template.InWord := ⟨(hB hb).1.changes hmerge.changes, (hB hb).2⟩
  refine (failsOnly_findRoom hwell hB).bind fun ⟨site, grown⟩ hroom => ?_
  obtain ⟨hgrow, room⟩ := WellTiled.findRoom hwell hroom
  replace hwell := hwell.changes hgrow.changes
  replace hB (hb : B) : grown.InWord := (hB hb).1.changes hgrow.changes
  have hbounds (hb : B) := room.bounds hwell (hB hb)
  refine (FailsOnly.lift (room.failsOnly_blockPieces hwell hB)).bind fun pieces hpieces => ?_
  obtain rfl := blockPieces_eq_ok (Outcome.liftM_eq_ok_iff.1 hpieces)
  refine (FailsOnly.mapRefusal ((room.failsOnly_partition hwell hpos hB).weaken fun _ => False.elim)).bind
    fun ⟨ids, cut⟩ hpart => ?_
  rw [Outcome.mapRefusal_eq_ok_iff] at hpart
  have hcut := hwell.builds_partition hpart
  refine (FailsOnly.lift (Word.failsOnly_add fun hb => by have := hbounds hb; omega)).bind fun y hy => ?_
  obtain ⟨-, rfl⟩ := Word.add_eq_ok_iff.1 (Outcome.liftM_eq_ok_iff.1 hy)
  refine (FailsOnly.lift (Word.failsOnly_add fun hb => by have := hbounds hb; omega)).bind fun y hy => ?_
  obtain ⟨-, rfl⟩ := Word.add_eq_ok_iff.1 (Outcome.liftM_eq_ok_iff.1 hy)
  refine (FailsOnly.lift (Word.failsOnly_add fun hb => by have := hbounds hb; omega)).bind fun x hx => ?_
  obtain ⟨-, rfl⟩ := Word.add_eq_ok_iff.1 (Outcome.liftM_eq_ok_iff.1 hx)
  have hclear := room.clear_of_partition hwell hpart
  replace hwell := hwell.builds hcut
  replace hB (hb : B) : cut.InWord := (hB hb).changes hcut.changes
  refine ((hwell.failsOnly_carveConnector hclear hB).weaken fun _ => False.elim).bind
    fun connected hconnected => ?_
  have hdrop := (dropped_of_carveConnector hwell hconnected).builds
  exact (FailsOnly.lift ((hwell.builds hdrop).failsOnly_mergeFree fun hb => (hB hb).changes hdrop.changes)).bind
    fun _ _ => .pure _

/-! ### Lanes -/

theorem failsOnly_widestStrip? (h : t.WellTiled) : FailsOnly (Fault.Allowed B) (widestStrip? t) := by
  refine (FailsOnly.mapM fun s hs => ?_).bind fun _ _ => .pure _
  have hr := h.inhabited s (List.mem_filter.1 hs).1
  exact (Word.failsOnly_sub fun _ => hr.2.le).bind fun _ _ => .pure _

theorem failsOnly_release {s : Segment} (hs : s ∈ t.segments) :
    FailsOnly (Stop.Allowed B fun _ => False) (t.release s.id) := by
  refine (FailsOnly.ofOption fun hnone => ?_).bind fun _ _ => .pure _
  have := List.find?_eq_none.1 hnone s hs
  simp at this

theorem failsOnly_lanePieces {r : Rect} {x : Nat} (hr : r.Inhabited) (hx0 : r.x0 ≤ x) (hx1 : x < r.x1)
    (hB : B → r.InWord) : FailsOnly (Fault.Allowed B) (lanePieces r x) := by
  obtain ⟨hy, -⟩ := hr
  simp only [Rect.InWord] at hB
  refine (Word.failsOnly_sub fun _ => hy.le).bind fun h hh => (Word.failsOnly_sub fun _ => hx0).bind fun w hw => ?_
  obtain ⟨-, rfl⟩ := Word.sub_eq_ok_iff.1 hh
  obtain ⟨-, rfl⟩ := Word.sub_eq_ok_iff.1 hw
  refine (Rect.failsOnly_ofBox fun hb => by have := hB hb; dsimp only; omega).bind fun _ _ => ?_
  refine (Rect.failsOnly_ofBox fun hb => by have := hB hb; dsimp only; omega).bind fun _ _ => ?_
  refine (Word.failsOnly_add fun hb => by have := hB hb; omega).bind fun next hnext => ?_
  refine (Word.failsOnly_sub fun _ => hx1.le).bind fun w hw => ?_
  obtain ⟨-, rfl⟩ := Word.add_eq_ok_iff.1 hnext
  obtain ⟨-, rfl⟩ := Word.sub_eq_ok_iff.1 hw
  refine (Word.failsOnly_sub fun _ => by omega).bind fun w hw => ?_
  obtain ⟨-, rfl⟩ := Word.sub_eq_ok_iff.1 hw
  exact (Rect.failsOnly_ofBox fun hb => by have := hB hb; dsimp only; omega).bind fun _ _ => .pure _

/-- There is always a strip to split, unless all are too narrow. -/
theorem failsOnly_splitLane (h : t.WellTiled) (hB : B → t.InWord) :
    FailsOnly (Stop.Allowed B fun e => e = .laneExhausted) (splitLane t) := by
  refine (FailsOnly.lift (failsOnly_widestStrip? h)).bind fun found hfound => ?_
  cases found with
  | none => exact .refuse rfl
  | some strip =>
      obtain ⟨w, s⟩ := strip
      obtain ⟨hs, -, rfl, hwide⟩ := widestStrip?_eq_some (Outcome.liftM_eq_ok_iff.1 hfound)
      have hr := h.inhabited s hs
      have hword (hb : B) := h.inWord (hB hb) hs
      obtain ⟨x, hx⟩ : ∃ x, x = s.rect.x0 + (s.rect.x1 - s.rect.x0) / 2 := ⟨_, rfl⟩
      have hx0 : s.rect.x0 < x := by omega
      have hx1 : x + 1 < s.rect.x1 := by omega
      refine (FailsOnly.lift (Word.failsOnly_add fun hb => ?_)).bind fun x' hx' => ?_
      · exact (by omega : _ ≤ s.rect.x1).trans (hword hb).2
      obtain rfl : x = x' := hx.trans (Word.add_eq_ok_iff.1 (Outcome.liftM_eq_ok_iff.1 hx')).2.symm
      refine (FailsOnly.mapRefusal ((failsOnly_release hs).weaken fun _ => False.elim)).bind fun u hu => ?_
      rw [Outcome.mapRefusal_eq_ok_iff] at hu
      obtain ⟨hwell, hgrid, ⟨s', hs', hid, hrect, hfree⟩, -⟩ := h.release hs hu
      refine (FailsOnly.lift (failsOnly_lanePieces hr hx0.le (by omega) hword)).bind fun pieces hpieces => ?_
      obtain rfl := lanePieces_eq_ok (Outcome.liftM_eq_ok_iff.1 hpieces)
      rw [← hid]
      refine (FailsOnly.mapRefusal ((hwell.failsOnly_partition hs' (allocated_of_isFree hfree) ?_ ?_
        fun hb => inWord_of_grid hgrid (hB hb)).weaken fun _ => False.elim)).bind fun _ _ => .pure _
      · rw [hrect]
        exact tiles_dropAt hx0.le (by omega)
      · obtain ⟨hy, -⟩ := hr
        simp only [dropAt, Piece.taken, List.forall_mem_cons, List.not_mem_nil, false_implies, implies_true,
          and_true, Rect.Inhabited]
        omega

theorem failsOnly_splitLanes (h : t.Served grid anchor) {n : Nat} (hB : B → t.InWord) :
    FailsOnly (Stop.Allowed B fun e => e = .laneExhausted ∧ 0 < n) (splitLanes n t) := by
  induction n generalizing t with
  | zero => exact .pure _
  | succ n ih =>
      refine ((failsOnly_splitLane h.wellTiled hB).weaken fun _ he => ⟨he, n.succ_pos⟩).bind fun u hu => ?_
      obtain ⟨hbuilds, hserved⟩ := served_splitLane h hu
      exact (ih hserved fun hb => (hB hb).changes hbuilds.changes).weaken fun _ he => ⟨he.1, n.succ_pos⟩

/-! ### The stages together -/

variable {height width io : Nat}

theorem at?_ofSize (hheight : 0 < height) (hwidth : 0 < width) :
    (Tiling.ofSize height width).at? ⟨0, 0⟩ = some (.isolated 0 (.free ⟨0, 0, height, width⟩)) := by
  refine (wellTiled_ofSize height width).at?_eq_some_iff.2 ⟨?_, Rect.mem_iff.2 ⟨le_rfl, hheight, le_rfl, hwidth⟩⟩
  rw [Tiling.ofSize, if_pos ⟨hheight, hwidth⟩]
  exact List.mem_singleton_self _

theorem failsOnly_placeStrip (hheight : 2 ≤ height) (hwidth : 0 < width) (hio : io ≤ width)
    (hB : B → height * width ≤ Word.top) :
    FailsOnly (Stop.Allowed B fun _ => False) (placeStrip height width io) := by
  have hwell := wellTiled_ofSize height width
  have hat := at?_ofSize (by omega : 0 < height) hwidth
  refine (FailsOnly.ofOption fun hnone => by simp [hat] at hnone).bind fun root hroot => ?_
  obtain rfl := Option.some.inj (hat.symm.trans (Outcome.ofOption_eq_ok_iff.1 hroot))
  have hmem := mem_of_at? hat
  refine (FailsOnly.lift (Word.failsOnly_sub fun _ => by omega)).bind fun bottom hbottom => ?_
  obtain ⟨-, rfl⟩ := Word.sub_eq_ok_iff.1 (Outcome.liftM_eq_ok_iff.1 hbottom)
  refine .ite (fun _ => .pure _) fun hsome => ?_
  refine (FailsOnly.lift (hwell.failsOnly_allocAt hmem fun hb => ?_)).bind fun strip hstrip => ?_
  · have hrows : height ≤ height * width := Nat.le_mul_of_pos_right _ hwidth
    have hcolumns : width ≤ height * width := Nat.le_mul_of_pos_left _ (by omega)
    have hword := hB hb
    exact ⟨inWord_of_grid (grid_ofSize height width) hword, by dsimp only; omega, by dsimp only; omega⟩
  refine (FailsOnly.ofOption ?_).bind fun _ _ => ?_
  · rintro rfl
    refine hwell.allocAt_ne_none hmem rfl ?_ ?_ (Outcome.liftM_eq_ok_iff.1 hstrip)
    · exact ⟨Nat.lt_succ_self _, by simp only [Box.rect]; omega⟩
    · simp only [Rect.includes, Bool.and_eq_true, decide_eq_true_eq]
      simp only [Box.rect, Segment.isolated, Piece.free]
      omega
  · exact (FailsOnly.lift (Word.failsOnly_sub fun _ => hheight)).bind fun _ _ => .pure _

/-- What is left above the strip is free and in one piece. -/
theorem placeStrip_leaves (hheight : 2 ≤ height) (hwidth : 0 < width) {row : Nat}
    (h : placeStrip height width io = .ok (row, t)) :
    ∃ s ∈ t.segments, s.allocated = false ∧ s.rect = ⟨0, 0, row + 1, width⟩ := by
  have hat := at?_ofSize (by omega : 0 < height) hwidth
  obtain ⟨root, hroot, hcases⟩ := placeStrip_cases h
  obtain rfl := Option.some.inj (hat.symm.trans hroot)
  rcases hcases with ⟨-, rfl, rfl⟩ | ⟨-, rfl, m, hmade⟩
  · refine ⟨_, mem_of_at? hat, rfl, ?_⟩
    rw [Nat.sub_add_cancel (by omega)]
    rfl
  · obtain ⟨e, later, hsplit, hcommit⟩ := allocAt_eq_some hmade
    obtain ⟨s, inner, hs, -, hinner, -, rfl⟩ := splitEdit_eq_ok hsplit
    obtain rfl := Rect.ofBox_eq_ok hinner
    obtain rfl := (wellTiled_ofSize height width).eq_of_id_eq (mem_of_segment? hs).1 (mem_of_at? hat)
      (mem_of_segment? hs).2
    have hrows : height - 2 + 1 = height - 1 := by omega
    rw [hrows]
    have habove : (⟨0, 0, height - 1, width⟩ : Rect) ∈
        (⟨0, 0, height, width⟩ : Rect).remainder ⟨height - 1, 0, height - 1 + 1, 0 + io⟩ := by
      refine List.mem_filter.2 ⟨List.mem_cons_self, ?_⟩
      simp [Rect.isEmpty]
      omega
    obtain ⟨s, hmem, hrect, hfree⟩ :=
      exists_free_of_commit (List.mem_cons_of_mem _ (List.mem_map_of_mem habove)) hcommit
    exact ⟨s, hmem, allocated_of_isFree hfree, hrect⟩

theorem failsOnly_placeIo {c : Circuit} {plan : Plan} (hB : B → height * width ≤ Word.top) :
    FailsOnly (Stop.Allowed B (PlacementError.Expected c height width plan)) (placeIo height width c.ioCount) := by
  unfold placeIo
  refine .guard (fun hsmall => ⟨rfl, rfl, hsmall⟩) fun hsize => ?_
  refine .guard (fun hnarrow => ⟨rfl, hnarrow⟩) fun hio => ?_
  have hheight : 2 ≤ height := by omega
  have hwidth : 0 < width := by omega
  refine ((failsOnly_placeStrip hheight hwidth (by omega) hB).weaken fun _ => False.elim).bind
    fun ⟨row, t⟩ hstrip => ?_
  obtain ⟨hrow, hwell, hgrid, -⟩ := placeStrip_eq_ok hheight hstrip
  obtain ⟨host, hmem, hfree, hrect⟩ := placeStrip_leaves hheight hwidth hstrip
  have hat : t.at? ⟨row, 0⟩ = some host := by
    refine hwell.at?_eq_some_iff.2 ⟨hmem, ?_⟩
    rw [hrect]
    exact Rect.mem_iff.2 ⟨Nat.zero_le _, Nat.lt_succ_self _, Nat.zero_le _, hwidth⟩
  refine (FailsOnly.ofOption fun hnone => by simp [hat] at hnone).bind fun host' hhost => ?_
  obtain rfl := Option.some.inj (hat.symm.trans (Outcome.ofOption_eq_ok_iff.1 hhost))
  refine (FailsOnly.lift (hwell.failsOnly_allocAt hmem fun hb => ?_)).bind fun main hmain => ?_
  · have hrows : height ≤ height * width := Nat.le_mul_of_pos_right _ hwidth
    have hcolumns : width ≤ height * width := Nat.le_mul_of_pos_left _ (by omega)
    have hword := hB hb
    have hle : mainRow height c.ioCount + 1 ≤ height := by
      unfold mainRow
      split <;> omega
    exact ⟨inWord_of_grid hgrid hword, by dsimp only; omega, by dsimp only; omega⟩
  refine (FailsOnly.ofOption ?_).bind fun _ _ => .pure _
  rintro rfl
  refine absurd (Outcome.liftM_eq_ok_iff.1 hmain) (hwell.allocAt_ne_none hmem hfree ?_ ?_)
  · exact ⟨Nat.lt_succ_self _, by simp only [Box.rect]; omega⟩
  · simp only [hrect, Rect.includes, Bool.and_eq_true, decide_eq_true_eq]
    simp only [Box.rect]
    omega

theorem failsOnly_capacity {l : Layout} (h : l.tiling.WellTiled) {role : Role} (hB : B → l.tiling.InWord) :
    FailsOnly (Fault.Allowed B) (l.capacity role) := by
  refine failsOnly_totalArea ?_ fun hb => ?_
  · simp only [List.forall_mem_map, List.mem_filter]
    exact fun s hs => h.inhabited s hs.1
  · have hnodup : ((l.tiling.segments.filter fun s => s.role == role).map Segment.id).Nodup :=
      List.Pairwise.map _ (fun s u hlt => Nat.ne_of_lt hlt) (h.ascending.filter _)
    have hword : l.tiling.height * l.tiling.width ≤ Word.top := hB hb
    exact (h.sum_le hnodup fun s hs => (List.mem_filter.1 hs).1).trans (hword.trans (by decide))

theorem failsOnly_checkCapacity {l : Layout} (h : l.tiling.WellTiled) {c : Circuit} {plan : Plan}
    (hB : B → l.tiling.InWord) :
    FailsOnly (Stop.Allowed B (PlacementError.Expected c height width plan)) (l.checkCapacity c) := by
  refine (FailsOnly.lift (failsOnly_capacity h hB)).bind fun _ _ => .guard (fun hfew => ⟨rfl, hfew⟩) fun _ => ?_
  refine (FailsOnly.lift (failsOnly_capacity h hB)).bind fun _ _ => .ite (fun hfew => ?_) fun _ => .pure _
  exact .refuse ⟨rfl, hfew⟩

end Layout

theorem Plan.failsOnly_byArea {plan : Plan} {B : Prop} (hB : B → ∀ template ∈ plan.factories, template.InWord) :
    FailsOnly (Fault.Allowed B) plan.byArea := by
  refine .ite (fun _ => .pure _) fun _ => (FailsOnly.mapM fun template hmem => ?_).bind fun _ _ => .pure _
  exact Word.failsOnly_mul fun hb => (hB hb template hmem).area

theorem Plan.mem_of_byArea {plan : Plan} {templates : List Template} (h : plan.byArea = .ok templates)
    {template : Template} (hmem : template ∈ templates) : template ∈ plan.factories := by
  rwa [byArea_eq_ok h, mem_sortBy] at hmem

/-- A plan is refused only for want of room. If the cells of the grid and of its templates can be counted in a word,
placing it has no fault but that segment numbers run out. -/
theorem Layout.failsOnly_place {c : Circuit} {height width : Nat} {plan : Plan} {B : Prop}
    (hplan : ∀ template ∈ plan.factories, template.Inhabited)
    (hB : B → height * width ≤ Word.top ∧ ∀ template ∈ plan.factories, template.InWord) :
    FailsOnly (Stop.Allowed B (PlacementError.Expected c height width plan)) (place c height width plan) := by
  refine (failsOnly_placeIo fun hb => (hB hb).1).bind fun ⟨row, start⟩ hio => ?_
  obtain ⟨-, hserved, hunits, -⟩ := placeIo_eq_ok hio
  have hstart : Founded start ⟨0, 0, height, width⟩ ⟨row, 0⟩ := ⟨hserved, by simp [hunits], by simp [hunits]⟩
  have hword {t : Tiling} (ht : t.Served ⟨0, 0, height, width⟩ ⟨row, 0⟩) (hb : B) : t.InWord :=
    Tiling.inWord_of_grid ht.grid_eq (hB hb).1
  refine (FailsOnly.lift (plan.failsOnly_byArea fun hb => (hB hb).2)).bind fun templates htemplates => ?_
  have hmem : ∀ template ∈ templates, template ∈ plan.factories :=
    fun _ => Plan.mem_of_byArea (Outcome.liftM_eq_ok_iff.1 htemplates)
  refine (FailsOnly.foldlM (fun l => Founded l ⟨0, 0, height, width⟩ ⟨row, 0⟩) hstart ?_ ?_).bind fun l hl => ?_
  · intro l template htemplate hfounded
    have hknown := hmem template htemplate
    refine (hfounded.failsOnly_placeFactory (hplan _ hknown) fun hb =>
      ⟨hword hfounded.served hb, (hB hb).2 _ hknown⟩).weaken ?_
    rintro _ rfl
    exact ⟨template, hknown, rfl, rfl, rfl⟩
  · exact fun l template _ l' hfounded hplace => (hfounded.placeFactory hplace).1
  obtain ⟨hfounded, -⟩ := hstart.placeFactories hl
  have hserved := hfounded.served
  refine (FailsOnly.of_eq_ok hserved.connectRoutes_eq).bind fun t ht => ?_
  obtain rfl := Except.ok.inj (hserved.connectRoutes_eq.symm.trans ht)
  refine ((hserved.wellTiled.failsOnly_fillRegisters (hword hserved)).weaken fun _ => False.elim).bind
    fun filled hfilled => ?_
  have hserved := hserved.fillRegisters hfilled
  refine ((failsOnly_splitLanes hserved (hword hserved)).weaken ?_).bind fun split hsplit => ?_
  · rintro _ ⟨rfl, hlanes⟩
    exact hlanes
  have hserved := (served_splitLanes hserved hsplit).2
  exact (failsOnly_checkCapacity hserved.wellTiled (hword hserved)).bind fun _ _ => .pure _

end SurfaceFabric
