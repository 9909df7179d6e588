import SurfaceFabric.Proofs.Placement.Connect

/-!
Placed factories. The row below a factory is routing of its own, and at the left edge of the grid so is the
column right of it. Both meet at the lower right corner of the block, from which its connector goes down.
So a block is joined to the rest once its connector is there, and a factory has routing below its entrance.
-/

namespace SurfaceFabric

theorem exists_of_findSomeM? {α β : Type} {f : α → Checked (Option β)} {l : List α} {b : β}
    (h : l.findSomeM? f = .ok (some b)) : ∃ a ∈ l, f a = .ok (some b) := by
  induction l with
  | nil => cases h
  | cons a rest ih =>
      rw [List.findSomeM?] at h
      obtain ⟨found, hfound, h⟩ := bind_eq_ok_iff.1 h
      cases found with
      | none =>
          obtain ⟨c, hc, hfc⟩ := ih h
          exact ⟨c, List.mem_cons_of_mem _ hc, hfc⟩
      | some made =>
          cases h
          exact ⟨a, List.mem_cons_self, hfound⟩

namespace Layout

open Tiling

variable {t t' : Tiling} {grid : Rect} {anchor : Cell} {template : Template} {site : Site} {handle : Nat}

def blockOf (site : Site) (template : Template) : Rect :=
  ⟨site.y, site.x, site.y + (template.height + 1), site.x + (template.width + 1)⟩

/-- A site in a free segment whose connector would go over free cells and end on routing. -/
structure Room (t : Tiling) (template : Template) (site : Site) : Prop where
  mem : site.segment ∈ t.segments
  isFree : site.segment.isFree = true
  inside : site.segment.rect.includes (blockOf site template) = true
  bottom : site.y + template.height + 1 = site.segment.rect.y1
  bottom_le : site.y + template.height + 1 ≤ site.stop
  ends : t.isRouteAt ⟨site.stop, site.x + template.width⟩ = true
  clear : ∀ k, site.y + template.height + 1 ≤ k → k < site.stop → t.FreeAt ⟨k, site.x + template.width⟩

theorem room_of_findSite (h : findSite t template = .ok (some site)) : Room t template site := by
  obtain ⟨_, hheight, h⟩ := bind_eq_ok_iff.1 h
  obtain ⟨_, hwidth, h⟩ := bind_eq_ok_iff.1 h
  obtain ⟨-, rfl⟩ := Word.add_eq_ok_iff.1 hheight
  obtain ⟨-, rfl⟩ := Word.add_eq_ok_iff.1 hwidth
  obtain ⟨s, hs, h⟩ := exists_of_findSomeM? h
  obtain ⟨hmem, hfree⟩ := mem_freeSegments.1 hs
  obtain ⟨rows, hrows, h⟩ := bind_eq_ok_iff.1 h
  obtain ⟨-, rfl⟩ := Word.sub_eq_ok_iff.1 hrows
  split at h
  · cases h
  · next hfit =>
      obtain ⟨columns, hcolumns, h⟩ := bind_eq_ok_iff.1 h
      obtain ⟨hx, rfl⟩ := Word.sub_eq_ok_iff.1 hcolumns
      split at h
      · cases h
      · next hwide =>
        obtain ⟨y, hy, h⟩ := bind_eq_ok_iff.1 h
        obtain ⟨-, rfl⟩ := Word.sub_eq_ok_iff.1 hy
        obtain ⟨right, hright, h⟩ := bind_eq_ok_iff.1 h
        obtain ⟨-, rfl⟩ := Word.sub_eq_ok_iff.1 hright
        obtain ⟨x, hchoice, h⟩ := exists_of_findSomeM? h
        simp only [List.mem_cons, List.not_mem_nil, or_false] at hchoice
        obtain ⟨_, hsum, h⟩ := bind_eq_ok_iff.1 h
        obtain ⟨last, hlast, h⟩ := bind_eq_ok_iff.1 h
        obtain ⟨-, rfl⟩ := Word.add_eq_ok_iff.1 hsum
        obtain ⟨-, rfl⟩ := Word.sub_eq_ok_iff.1 hlast
        obtain ⟨stop, hstop, rfl⟩ := Option.map_eq_some_iff.1 (pure_eq_ok_iff.1 h)
        obtain ⟨hle, hroute, hclear⟩ := probeDown_eq_some hstop
        have hbottom : s.rect.y1 - (template.height + 1) + template.height + 1 = s.rect.y1 := by omega
        refine ⟨hmem, hfree, ?_, hbottom, hbottom.trans_le hle, hroute, fun k hk => hclear k (hbottom ▸ hk)⟩
        simp only [Rect.includes, Bool.and_eq_true, decide_eq_true_eq]
        simp only [blockOf]
        omega

theorem WellTiled.findRoom (h : t.WellTiled) (hroom : findRoom t template = .ok (site, t')) :
    Regrouped t t' ∧ Room t' template site := by
  obtain ⟨found, hfound, hroom⟩ := bind_eq_ok_iff.1 hroom
  rw [Outcome.liftM_eq_ok_iff] at hfound
  cases found with
  | some place =>
      cases hroom
      exact ⟨.refl, room_of_findSite hfound⟩
  | none =>
      obtain ⟨u, hgrow, hroom⟩ := bind_eq_ok_iff.1 hroom
      obtain ⟨found, hfound, hroom⟩ := bind_eq_ok_iff.1 hroom
      rw [Outcome.liftM_eq_ok_iff] at hgrow hfound
      cases found with
      | some place =>
          cases hroom
          exact ⟨h.growAll hgrow, room_of_findSite hfound⟩
      | none => cases hroom

def bodyOf (site : Site) (template : Template) : Rect :=
  ⟨site.y, site.x, site.y + template.height, site.x + template.width⟩

def rowOf (site : Site) (template : Template) : Rect :=
  ⟨site.y + template.height, site.x, site.y + template.height + 1, site.x + (template.width + 1)⟩

def marginOf (site : Site) (template : Template) : Rect :=
  ⟨site.y, site.x + template.width, site.y + template.height, site.x + template.width + 1⟩

def block (site : Site) (template : Template) (handle : Nat) (rest : List Rect) : List Piece :=
  .taken (.factory handle) (bodyOf site template) :: .taken .localRoute (rowOf site template) ::
    (if site.x = 0 then .taken .localRoute (marginOf site template)
      else .free (marginOf site template)) :: rest.map .free

theorem blockPieces_eq_ok {pieces : List Piece} (h : blockPieces site template handle = .ok pieces) :
    pieces = block site template handle (site.segment.rect.remainder (blockOf site template)) := by
  simp only [blockPieces, bind_eq_ok_iff, Word.add_eq_ok_iff] at h
  obtain ⟨_, ⟨-, rfl⟩, _, ⟨-, rfl⟩, whole, hwhole, _, ⟨-, rfl⟩, margin, hmargin, body, hbody, _, ⟨-, rfl⟩, _, ⟨-, rfl⟩,
    row, hrow, h⟩ := h
  obtain rfl := Rect.ofBox_eq_ok hwhole
  obtain rfl := Rect.ofBox_eq_ok hmargin
  obtain rfl := Rect.ofBox_eq_ok hbody
  obtain rfl := Rect.ofBox_eq_ok hrow
  exact (pure_eq_ok_iff.1 h).symm

/-- A block has no slots, and its routing is its row and maybe its margin. -/
theorem mem_block {rest : List Rect} {p : Piece} (hp : p ∈ block site template handle rest) :
    ¬p.role.IsSlot ∧ (p.role.isRoute = true →
      p.rect = rowOf site template ∨ p.rect = marginOf site template) := by
  simp only [block, List.mem_cons] at hp
  rcases hp with rfl | rfl | rfl | hp
  · simp [Piece.taken, Role.IsSlot, Role.isRoute]
  · simp [Piece.taken, Role.IsSlot]
  · split <;> simp [Piece.taken, Piece.free, Role.IsSlot]
  · obtain ⟨r, -, rfl⟩ := List.mem_map.1 hp
    simp [Piece.free, Role.IsSlot, Role.isRoute]

/-- A block with its connector is joined to the routing that the connector ends on. -/
theorem Room.served {u : Tiling} {ids : List Nat} {rest : List Rect} (room : Room t template site)
    (h : t.Served grid anchor)
    (hpart : t.partition site.segment.id (block site template handle rest) = .ok (ids, u))
    (hdrop : Dropped u (site.x + template.width) (site.y + template.height + 1) site.stop t') :
    t'.Served grid anchor := by
  have hcarved := carved_of_partition h.wellTiled room.mem (by rw [role_of_isFree room.isFree]; rfl) hpart
  have hbottom := room.bottom_le
  have hroute {p : Piece} (hp : p ∈ block site template handle rest) (hroute : p.role.isRoute = true)
      {c : Cell} (hc : c ∈ p.rect) : t'.isRouteAt c = true :=
    hdrop.isRouteAt (hcarved.isRouteAt_piece hp hroute hc)
  have hrow (c : Cell) (hc : c ∈ rowOf site template) : t'.isRouteAt c = true :=
    hroute (p := .taken .localRoute (rowOf site template)) (by simp [block]) rfl hc
  have hcorner : (⟨site.y + template.height, site.x + template.width⟩ : Cell) ∈ rowOf site template := by
    simp only [rowOf, Rect.mem_iff]
    omega
  refine hcarved.served_dropped h hdrop room.ends ?_ fun p hp => (mem_block hp).1
  intro p hp hpiece c hc
  rcases (mem_block hp).2 hpiece with hrect | hrect
  · -- along the row to the corner above the connector
    rw [hrect] at hc
    refine (hdrop.joined (hcarved.isRouteAt room.ends) (by omega) ?_).trans (joined_of_mem hrow hcorner hc)
    intro k hk hk'
    obtain rfl : k = site.y + template.height := by omega
    exact hrow _ hcorner
  · -- down the margin through the corner
    have hmargin : ∀ d ∈ marginOf site template, t'.isRouteAt d = true :=
      fun d hd => hroute hp hpiece (hrect ▸ hd)
    rw [hrect] at hc
    simp only [marginOf, Rect.mem_iff] at hc hmargin
    obtain ⟨cy, cx⟩ := c
    obtain rfl : cx = site.x + template.width := by dsimp only at hc; omega
    refine hdrop.joined (hcarved.isRouteAt room.ends) (by dsimp only at hc; omega) ?_
    intro k hk hk'
    by_cases hlast : k = site.y + template.height
    · subst hlast
      exact hrow _ hcorner
    · apply hmargin
      dsimp only at hc ⊢
      omega

/-- A placed factory with routing below its entrance. -/
def Landed (t : Tiling) (u : FactoryUnit) : Prop :=
  ∃ body row id, t.Stands u.segment body (.factory u.handle) ∧ t.Stands id row .localRoute ∧
    (⟨body.y1, body.x1 - 1⟩ : Cell) ∈ row

theorem Landed.builds {u : FactoryUnit} (h : Landed t u) (hwell : t.WellTiled) (hbuilds : Builds t t') :
    Landed t' u := by
  obtain ⟨body, row, id, hbody, hrow, hmem⟩ := h
  exact ⟨body, row, id, hbuilds.stands hwell (by simp) hbody, hbuilds.stands hwell (by simp) hrow, hmem⟩

theorem landed_of_partition {u : Tiling} {ids : List Nat} {rest : List Rect} {symbol : String} {cycles : Nat}
    (hwell : u.WellTiled)
    (hpart : t.partition site.segment.id (block site template handle rest) = .ok (ids, u)) :
    Landed u ⟨handle, symbol, ids.headD 0, cycles⟩ := by
  have hcommit := partition_eq_ok hpart
  have hbody := stands_first (p := .taken (.factory handle) (bodyOf site template)) rfl hcommit
  obtain ⟨id, hrow⟩ := stands_of_commit (p := .taken .localRoute (rowOf site template))
    (by simp [block]) rfl hcommit
  refine ⟨bodyOf site template, rowOf site template, id, hbody, hrow, ?_⟩
  obtain ⟨s, hs, -, hrect, -⟩ := hbody
  obtain ⟨-, hwidth⟩ := hwell.inhabited s hs
  rw [hrect] at hwidth
  simp only [Piece.taken, bodyOf, rowOf, Rect.mem_iff] at hwidth ⊢
  omega

/-- A layout under construction: its routing serves it, its factories are numbered in order and have
routing below their entrances. -/
structure Founded (l : Layout) (grid : Rect) (anchor : Cell) : Prop where
  served : l.tiling.Served grid anchor
  numbered : ∀ (i : Nat) (u : FactoryUnit), l.units[i]? = some u → u.handle = i
  landed : ∀ u ∈ l.units, Landed l.tiling u

/-- The stages of placing a factory: free space is joined and maybe grown, a block is cut out of it, its
connector is carved, and free space is joined again. -/
theorem placeFactory_eq_ok {l l' : Layout} (hplace : l.placeFactory template = .ok l') :
    ∃ merged site grown rest ids cut connected joined,
      l.tiling.mergeFree = .ok merged ∧ findRoom merged template = .ok (site, grown) ∧
      grown.partition site.segment.id (block site template l.nextHandle rest) = .ok (ids, cut) ∧
      cut.carveConnector (site.x + template.width) site.stop (site.y + template.height + 1) = .ok connected ∧
      connected.mergeFree = .ok joined ∧
      l' = { l with tiling := joined }.addUnit template (ids.headD 0) := by
  obtain ⟨merged, hmerged, hplace⟩ := bind_eq_ok_iff.1 hplace
  obtain ⟨⟨site, grown⟩, hroom, hplace⟩ := bind_eq_ok_iff.1 hplace
  obtain ⟨pieces, hpieces, hplace⟩ := bind_eq_ok_iff.1 hplace
  obtain ⟨⟨ids, cut⟩, hpart, hplace⟩ := bind_eq_ok_iff.1 hplace
  obtain ⟨bottom, hbottom, hplace⟩ := bind_eq_ok_iff.1 hplace
  obtain ⟨y, hy, hplace⟩ := bind_eq_ok_iff.1 hplace
  obtain ⟨x, hx, hplace⟩ := bind_eq_ok_iff.1 hplace
  obtain ⟨connected, hconnected, hplace⟩ := bind_eq_ok_iff.1 hplace
  obtain ⟨joined, hjoined, hplace⟩ := bind_eq_ok_iff.1 hplace
  cases hplace
  rw [Outcome.liftM_eq_ok_iff] at hmerged hpieces hbottom hy hx hjoined
  obtain ⟨-, rfl⟩ := Word.add_eq_ok_iff.1 hbottom
  obtain ⟨-, rfl⟩ := Word.add_eq_ok_iff.1 hy
  obtain ⟨-, rfl⟩ := Word.add_eq_ok_iff.1 hx
  rw [Outcome.mapRefusal_eq_ok_iff] at hpart
  obtain rfl := blockPieces_eq_ok hpieces
  exact ⟨merged, site, grown, _, ids, cut, connected, joined, hmerged, hroom, hpart, hconnected, hjoined, rfl⟩

/-- Placing a factory adds one to the layout and keeps what is there. -/
theorem Founded.placeFactory {l l' : Layout} (h : Founded l grid anchor)
    (hplace : l.placeFactory template = .ok l') :
    Founded l' grid anchor ∧ Builds l.tiling l'.tiling ∧ l'.units.length = l.units.length + 1 := by
  obtain ⟨merged, site, grown, rest, ids, cut, connected, joined, hmerged, hroom, hpart, hconnected, hjoined,
    rfl⟩ := placeFactory_eq_ok hplace
  have hmerge := h.served.wellTiled.mergeFree hmerged
  have hserved := h.served.regrouped hmerge
  obtain ⟨hgrow, room⟩ := WellTiled.findRoom hserved.wellTiled hroom
  have hserved := hserved.regrouped hgrow
  have hcut := hserved.wellTiled.builds_partition hpart
  have hcutWell := hserved.wellTiled.builds hcut
  have hdrop := dropped_of_carveConnector hcutWell hconnected
  have hserved := room.served hserved hpart hdrop
  have hjoin := hserved.wellTiled.mergeFree hjoined
  have hlater : Builds cut joined := hdrop.builds.trans hjoin.builds
  have hbuilds : Builds l.tiling joined := (hmerge.builds.trans hgrow.builds).trans (hcut.trans hlater)
  refine ⟨⟨hserved.regrouped hjoin, ?_, ?_⟩, hbuilds, by simp [addUnit]⟩
  · intro i u hu
    simp only [addUnit, List.getElem?_append] at hu
    split at hu
    · exact h.numbered i u hu
    · next hlast =>
        rw [List.getElem?_singleton] at hu
        split at hu
        · next hi =>
            obtain rfl := Option.some.inj hu
            show l.units.length = i
            omega
        · cases hu
  · intro u hu
    rcases List.mem_append.1 hu with hu | hu
    · exact (h.landed u hu).builds h.served.wellTiled hbuilds
    · rw [List.mem_singleton.1 hu]
      exact (landed_of_partition hcutWell hpart).builds hcutWell hlater

theorem Founded.placeFactories {templates : List Template} {l l' : Layout} (h : Founded l grid anchor)
    (hplace : templates.foldlM Layout.placeFactory l = .ok l') :
    Founded l' grid anchor ∧ Builds l.tiling l'.tiling ∧
      l'.units.length = l.units.length + templates.length := by
  induction templates generalizing l with
  | nil =>
      cases hplace
      exact ⟨h, .refl, rfl⟩
  | cons template rest ih =>
      rw [List.foldlM_cons] at hplace
      obtain ⟨next, hnext, hrest⟩ := bind_eq_ok_iff.1 hplace
      obtain ⟨hfounded, hfirst, hcount⟩ := h.placeFactory hnext
      obtain ⟨hfounded, hlater, hlength⟩ := ih hfounded hrest
      refine ⟨hfounded, hfirst.trans hlater, ?_⟩
      rw [hlength, hcount, List.length_cons]
      omega

end Layout

end SurfaceFabric
