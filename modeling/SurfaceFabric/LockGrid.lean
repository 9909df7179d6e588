import SurfaceFabric.Ascending
import SurfaceFabric.Layout

/-!
Lock grids: the cells of a layout and which gates hold them over which ticks. A hold covers the ticks
from its start up to, but not including, its stop.
-/

namespace SurfaceFabric

/-- From which sides a cell is entered: from above or below only, or from any side. -/
inductive Orientation
  | vertical
  | free
  deriving DecidableEq, Repr

structure Patch where
  role : Role
  segment : Nat
  deriving DecidableEq, Repr

def Patch.orientation (p : Patch) : Orientation :=
  match p.role with
  | .register | .io => .vertical
  | _ => .free

structure Lock where
  owner : Nat
  start : Nat
  stop : Nat
  deriving DecidableEq, Repr

def Lock.overlaps (l : Lock) (start stop : Nat) : Bool := l.start < stop && start < l.stop

structure Hold where
  cell : Cell
  lock : Lock
  deriving DecidableEq, Repr

/-- Patches in row-major order, and holds in the order they were taken. -/
structure LockGrid where
  height : Nat
  width : Nat
  patches : Array Patch
  holds : List Hold
  deriving Repr

namespace LockGrid

/-- The patch at a cell; a cell that no segment covers is unassigned. -/
def patchOf (l : Layout) (c : Cell) : Patch :=
  match l.tiling.at? c with
  | some s => ⟨s.role, s.id⟩
  | none => ⟨.unassigned, Word.top⟩

def allCells (height width : Nat) : List Cell :=
  (List.range height).flatMap fun y => (List.range width).map fun x => ⟨y, x⟩

/-- The grid of a layout without any holds. Its cells are counted in a word. -/
def ofLayout (l : Layout) : Checked LockGrid := do
  let _ ← Word.mul l.height l.width
  return ⟨l.height, l.width, ((allCells l.height l.width).map (patchOf l)).toArray, []⟩

def cells (g : LockGrid) : List Cell := allCells g.height g.width

def inside (g : LockGrid) (c : Cell) : Bool := c.y < g.height && c.x < g.width

def patch? (g : LockGrid) (c : Cell) : Option Patch :=
  if g.inside c then g.patches[c.y * g.width + c.x]? else none

def isRoute (g : LockGrid) (c : Cell) : Bool := ((g.patch? c).map fun p => p.role.isRoute).getD false

def isVertical (g : LockGrid) (c : Cell) : Bool :=
  ((g.patch? c).map fun p => p.orientation == .vertical).getD false

def locksAt (g : LockGrid) (c : Cell) : List Lock :=
  (g.holds.filter fun h => h.cell == c).map Hold.lock

def isUnheld (g : LockGrid) (c : Cell) (start stop : Nat) : Bool :=
  g.holds.all fun h => h.cell != c || !h.lock.overlaps start stop

def isFree (g : LockGrid) (c : Cell) (start stop : Nat) : Bool :=
  g.inside c && g.isUnheld c start stop

/-- Takes a hold; nothing happens outside the grid. -/
def hold (g : LockGrid) (h : Hold) : LockGrid :=
  if g.inside h.cell then { g with holds := g.holds ++ [h] } else g

def release (g : LockGrid) (owner : Nat) : LockGrid :=
  { g with holds := g.holds.filter fun h => h.lock.owner != owner }

/-- The cells one step away and whether the step is vertical: up, down, left, right. -/
def steps (g : LockGrid) (c : Cell) : List (Cell × Bool) :=
  (if 0 < c.y then [(⟨c.y - 1, c.x⟩, true)] else [])
    ++ (if c.y + 1 < g.height then [(⟨c.y + 1, c.x⟩, true)] else [])
    ++ (if 0 < c.x then [(⟨c.y, c.x - 1⟩, false)] else [])
    ++ (if c.x + 1 < g.width then [(⟨c.y, c.x + 1⟩, false)] else [])

theorem length_steps_le (g : LockGrid) (c : Cell) : (g.steps c).length ≤ 4 := by
  unfold steps
  simp only [List.length_append]
  have (p : Prop) [Decidable p] (a : Cell × Bool) : (if p then [a] else []).length ≤ 1 := by
    split <;> simp
  have h₁ := this (0 < c.y) (⟨c.y - 1, c.x⟩, true)
  have h₂ := this (c.y + 1 < g.height) (⟨c.y + 1, c.x⟩, true)
  have h₃ := this (0 < c.x) (⟨c.y, c.x - 1⟩, false)
  have h₄ := this (c.x + 1 < g.width) (⟨c.y, c.x + 1⟩, false)
  omega

/-- Steps from any pair of words; the next row and column must be words too. -/
def neighbours (g : LockGrid) (c : Cell) : Checked (List (Cell × Bool)) := do
  let _ ← Word.add c.y 1
  let _ ← Word.add c.x 1
  return g.steps c

def routeDegree (g : LockGrid) (c : Cell) : Nat := ((g.steps c).filter fun s => g.isRoute s.1).length

def degree (g : LockGrid) (c : Cell) : Checked Nat := do
  let _ ← g.neighbours c
  return g.routeDegree c

def routeCells (g : LockGrid) : List Cell := g.cells.filter g.isRoute

def heldCells (g : LockGrid) : List Cell := g.cells.filter fun c => !(g.locksAt c).isEmpty

/-- The first tick after `t` at which a hold starts or stops. -/
def nextBoundary? (g : LockGrid) (t : Nat) : Option Nat :=
  ((g.holds.flatMap fun h => [h.lock.start, h.lock.stop]).filter (t < ·)).min?

theorem isFree_iff {g : LockGrid} {c : Cell} {start stop : Nat} :
    g.isFree c start stop = true ↔ g.inside c = true ∧
      ∀ h ∈ g.holds, h.cell = c → ¬(h.lock.start < stop ∧ start < h.lock.stop) := by
  simp [isFree, isUnheld, Lock.overlaps, Decidable.imp_iff_not_or]

theorem isFree_mono {g : LockGrid} {c : Cell} {start stop start' stop' : Nat}
    (h : g.isFree c start stop = true) (hstart : start ≤ start') (hstop : stop' ≤ stop) :
    g.isFree c start' stop' = true := by
  obtain ⟨hinside, hfree⟩ := isFree_iff.1 h
  refine isFree_iff.2 ⟨hinside, fun x hx hcell => ?_⟩
  have := hfree x hx hcell
  omega

theorem mem_holds_release {g : LockGrid} {owner : Nat} {h : Hold} :
    h ∈ (g.release owner).holds ↔ h ∈ g.holds ∧ h.lock.owner ≠ owner := by
  simp [release]

@[simp] theorem inside_hold (g : LockGrid) (h : Hold) (c : Cell) :
    (g.hold h).inside c = g.inside c := by
  unfold hold
  split <;> rfl

theorem mem_holds_foldl_hold {g : LockGrid} {taken : List Hold} {h : Hold} :
    h ∈ (taken.foldl hold g).holds ↔ h ∈ g.holds ∨ h ∈ taken ∧ g.inside h.cell = true := by
  induction taken generalizing g with
  | nil => simp
  | cons k taken ih =>
      rw [List.foldl_cons, ih, inside_hold]
      by_cases hk : g.inside k.cell = true
      · simp only [hold, hk, if_true, List.mem_append, List.mem_cons]
        grind
      · simp only [hold, hk, List.mem_cons]
        grind

@[simp] theorem inside_foldl_hold (g : LockGrid) (taken : List Hold) (c : Cell) :
    (taken.foldl hold g).inside c = g.inside c := by
  induction taken generalizing g with
  | nil => rfl
  | cons k taken ih => rw [List.foldl_cons, ih, inside_hold]

@[simp] theorem patch?_hold (g : LockGrid) (h : Hold) (c : Cell) :
    (g.hold h).patch? c = g.patch? c := by
  unfold hold
  split <;> rfl

@[simp] theorem patch?_release (g : LockGrid) (owner : Nat) (c : Cell) :
    (g.release owner).patch? c = g.patch? c := rfl

end LockGrid

end SurfaceFabric
