import SurfaceFabric.Tiling.Merge

/-!
The operations that change a tiling, as data. Performing one always leaves a tiling: the changed one,
or the same one with a reply that says why nothing changed.
-/

namespace SurfaceFabric.Tiling

inductive Operation
  | split (id : Nat) (box : Box)
  | commit (edit : Edit)
  | partition (id : Nat) (pieces : List Piece)
  | alloc (id h w : Nat) (role : Role)
  | allocAt (id : Nat) (box : Box) (role : Role)
  | mergeHorizontal (a b : Nat)
  | mergeVertical (a b : Nat)
  | growRight (id : Nat)
  | growDown (id : Nat)
  | mergeColumns
  | mergeRows
  | setRole (id : Nat) (role : Role) (allocated : Bool)
  | release (id : Nat)
  deriving Repr

inductive Reply
  | made (ids : List Nat)
  | found (id : Option Nat)
  | count (n : Nat)
  | done
  | refused (e : GeometryError)
  deriving DecidableEq, Repr

def replyMade (t : Tiling) (r : Outcome GeometryError (List Nat × Tiling)) :
    Checked (Tiling × Reply) := do
  match ← r.settle with
  | .ok (ids, t') => return (t', .made ids)
  | .error e => return (t, .refused e)

def replyFound (t : Tiling) (r : Checked (Option (Nat × Tiling))) : Checked (Tiling × Reply) := do
  match ← r with
  | some (id, t') => return (t', .found (some id))
  | none => return (t, .found none)

def replyCount (r : Checked (Nat × Tiling)) : Checked (Tiling × Reply) := do
  let (n, t) ← r
  return (t, .count n)

def replyDone (t : Tiling) (r : Outcome GeometryError Tiling) : Checked (Tiling × Reply) := do
  match ← r.settle with
  | .ok t' => return (t', .done)
  | .error e => return (t, .refused e)

def perform (t : Tiling) : Operation → Checked (Tiling × Reply)
  | .split id b => replyMade t (t.split id b)
  | .commit e => replyMade t (t.commit e)
  | .partition id pieces => replyMade t (t.partition id pieces)
  | .alloc id h w role => replyFound t (t.alloc id h w role)
  | .allocAt id b role => replyFound t (t.allocAt id b role)
  | .mergeHorizontal a b => replyFound t (t.mergeHorizontal a b)
  | .mergeVertical a b => replyFound t (t.mergeVertical a b)
  | .growRight id => replyFound t (t.growRight id)
  | .growDown id => replyFound t (t.growDown id)
  | .mergeColumns => replyCount t.mergeColumns
  | .mergeRows => replyCount t.mergeRows
  | .setRole id role allocated => replyDone t (t.setRole id role allocated)
  | .release id => replyDone t (t.release id)

def performAll (t : Tiling) : List Operation → Checked Tiling
  | [] => return t
  | op :: rest => do
      let (t, _) ← t.perform op
      t.performAll rest

end SurfaceFabric.Tiling
