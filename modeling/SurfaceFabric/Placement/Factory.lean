import SurfaceFabric.Layout
import SurfaceFabric.Placement.Connector
import SurfaceFabric.Tiling.Merge

/-!
Placing factories. A factory takes a block one row and one column larger than itself: the row below it
and, at the left edge of the grid, the column right of it are routing of its own. From the block's lower
right corner a connector goes down to the routing that is there already.
-/

namespace SurfaceFabric.Layout

/-- A place for a block: its corner in a free segment, and the row where its connector ends. -/
structure Site where
  segment : Segment
  y : Nat
  x : Nat
  stop : Nat
  deriving Repr

/-- A block of `h` rows and `w` columns at the bottom of a free segment, flush left or else flush right,
so that a connector can be dropped from its last column. -/
def siteIn (t : Tiling) (h w : Nat) (s : Segment) : Checked (Option Site) := do
  if (← s.rect.height) < h then return none
  if (← s.rect.width) < w then return none
  let y ← Word.sub s.rect.y1 h
  [s.rect.x0, ← Word.sub s.rect.x1 w].findSomeM? fun x => do
    let last ← Word.sub (← Word.add x w) 1
    return (t.probeDown (fun _ => true) last s.rect.y1).map fun stop => ⟨s, y, x, stop⟩

def findSite (t : Tiling) (template : Template) : Checked (Option Site) := do
  let h ← Word.add template.height 1
  let w ← Word.add template.width 1
  t.freeSegments.findSomeM? (siteIn t h w)

/-- A site in the tiling as it is, or else after free segments have been grown downwards. -/
def findRoom (t : Tiling) (template : Template) : Outcome PlacementError (Site × Tiling) := do
  match ← findSite t template with
  | some site => return (site, t)
  | none =>
      let t ← t.growAll
      match ← findSite t template with
      | some site => return (site, t)
      | none =>
          Outcome.refuse (.factoryExhausted template.symbol template.height template.width)

/-- The pieces of a block: the factory, the routing row below it, the column right of it, and what is
left over of the segment. -/
def blockPieces (site : Site) (template : Template) (handle : Nat) : Checked (List Piece) := do
  let h := template.height
  let w := template.width
  let block ← Rect.ofBox ⟨site.y, site.x, ← Word.add h 1, ← Word.add w 1⟩
  let margin ← Rect.ofBox ⟨site.y, ← Word.add site.x w, h, 1⟩
  let body ← Rect.ofBox ⟨site.y, site.x, h, w⟩
  let row ← Rect.ofBox ⟨← Word.add site.y h, site.x, 1, ← Word.add w 1⟩
  return [.taken (.factory handle) body, .taken .localRoute row,
    if site.x = 0 then .taken .localRoute margin else .free margin]
    ++ (site.segment.rect.remainder block).map .free

def placeFactory (l : Layout) (template : Template) : Outcome PlacementError Layout := do
  let (site, t) ← findRoom (← l.tiling.mergeFree) template
  let pieces ← blockPieces site template l.nextHandle
  let (ids, t) ← (t.partition site.segment.id pieces).mapRefusal .geometry
  let y ← Word.add (← Word.add site.y template.height) 1
  let x ← Word.add site.x template.width
  let t ← t.carveConnector x site.stop y
  let t ← t.mergeFree
  return { l with tiling := t }.addUnit template (ids.headD 0)

end SurfaceFabric.Layout
