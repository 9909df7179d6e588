import SurfaceFabric.Placement.Error
import SurfaceFabric.Tiling.Split

/-!
Connectors: routing columns one cell wide, dropped over free cells until they meet routing.
-/

namespace SurfaceFabric.Tiling

/-- The row where a walk down column `x` from row `y` over free cells meets routing, if the segment it
meets is accepted. -/
def probeDown (t : Tiling) (accept : Nat → Bool) (x y : Nat) : Option Nat :=
  if y < t.height then
    match t.at? ⟨y, x⟩ with
    | none => none
    | some s =>
        if s.role.isRoute then if accept s.id then some y else none
        else if s.isFree then t.probeDown accept x (y + 1)
        else none
  else none
termination_by t.height - y

/-- Turns the free cells from row `y` down to row `stop` of column `x` into routing. -/
def carveConnector (x stop y : Nat) (t : Tiling) : Outcome PlacementError Tiling :=
  if y < stop then
    match _h : t.at? ⟨y, x⟩ with
    | none => Outcome.refuse (.gridTooSmall t.height t.width)
    | some s => do
        let length ← Word.sub (min s.rect.y1 stop) y
        match ← t.allocAt s.id ⟨y, x, length, 1⟩ .route with
        | none => Outcome.refuse (.disconnected s.id)
        | some (_, t) => carveConnector x stop (min s.rect.y1 stop) t
  else return t
termination_by stop - y
decreasing_by
  have := Rect.contains_iff.1 (at?_contains _h)
  simp only at this
  omega

end SurfaceFabric.Tiling
