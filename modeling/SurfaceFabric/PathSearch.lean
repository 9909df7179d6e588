import SurfaceFabric.LockGrid

/-!
Finding a path between two cells through routing cells that are free over given ticks. Cells are
expanded in order of a score, the first found of equals first. A cell may be reached again at a lower
cost, also after it has been expanded; every cell is expanded once at most, so the search ends.
-/

namespace SurfaceFabric

/-- Switches that need only be free over a shorter time, or be shared with others in it. -/
structure Relaxation where
  switches : List Cell
  shared : List Cell
  start : Nat
  stop : Nat

/-- What a path may use: routing cells that are free over the given ticks and not blocked. -/
structure PathQuery where
  grid : LockGrid
  start : Nat
  stop : Nat
  blocked : List Cell
  relaxed : Option Relaxation

namespace PathQuery

def relaxedAt (q : PathQuery) (r : Relaxation) (c : Cell) : Bool :=
  c ∈ r.switches && (q.grid.isFree c r.start r.stop || c ∈ r.shared)

def passable (q : PathQuery) (c : Cell) : Bool :=
  q.grid.isRoute c && c ∉ q.blocked &&
    (q.grid.isFree c q.start q.stop || (q.relaxed.map fun r => q.relaxedAt r c).getD false)

/-- Whether a path may step from `c` to the next cell. Cells at its two ends that are vertical are left
and entered by vertical steps. -/
def mayStep (q : PathQuery) (source target c : Cell) (step : Cell × Bool) : Bool :=
  (c != source || step.2 || !q.grid.isVertical source) &&
    if step.1 = target then step.2 || !q.grid.isVertical target else q.passable step.1

end PathQuery

structure Label where
  cell : Cell
  cost : Nat
  parent : Option Cell
  deriving DecidableEq, Repr

structure Candidate where
  cell : Cell
  score : Float

/-- Labels with the newest first, candidates with the oldest first. -/
structure SearchState where
  labels : List Label
  frontier : List Candidate

namespace PathSearch

/-- The candidate of least score, the oldest of equals, and the others in their order. -/
def popLeast : List Candidate → Option (Candidate × List Candidate)
  | [] => none
  | c :: rest =>
      match popLeast rest with
      | none => some (c, [])
      | some (least, others) =>
          if least.score < c.score then some (least, c :: others) else some (c, rest)

theorem popLeast_length {l others : List Candidate} {c : Candidate}
    (h : popLeast l = some (c, others)) : others.length + 1 = l.length := by
  induction l generalizing c others with
  | nil => simp [popLeast] at h
  | cons d rest ih =>
      simp only [popLeast] at h
      split at h
      · next hnone =>
          cases rest with
          | nil => simp_all
          | cons e tail =>
              simp only [popLeast] at hnone
              split at hnone
              · simp at hnone
              · split at hnone <;> simp at hnone
      · next least _ hsome =>
          split at h
          · simp only [Option.some.injEq, Prod.mk.injEq] at h
            have := ih hsome
            rw [← h.2]
            simpa using this
          · simp only [Option.some.injEq, Prod.mk.injEq] at h
            rw [← h.2]
            simp

def label? (labels : List Label) (c : Cell) : Option Label := labels.find? fun l => l.cell == c

/-- Labels the next cell from `c`, if the path may step there and this is cheaper than before. -/
def reach (q : PathQuery) (score : Nat → Cell → Float) (source target c : Cell) (s : SearchState)
    (step : Cell × Bool) : SearchState :=
  let cost := ((label? s.labels c).map Label.cost).getD 0 + 1
  let cheaper := ((label? s.labels step.1).map fun l => decide (cost < l.cost)).getD true
  if q.mayStep source target c step && cheaper then
    ⟨⟨step.1, cost, some c⟩ :: s.labels, s.frontier ++ [⟨step.1, score cost step.1⟩]⟩
  else s

theorem frontier_length_reach_le (q : PathQuery) (score : Nat → Cell → Float) (source target c : Cell)
    (s : SearchState) (step : Cell × Bool) :
    (reach q score source target c s step).frontier.length ≤ s.frontier.length + 1 := by
  unfold reach
  dsimp only
  split
  · simp
  · exact Nat.le_succ _

theorem frontier_length_foldl_reach_le (q : PathQuery) (score : Nat → Cell → Float)
    (source target c : Cell) (steps : List (Cell × Bool)) (s : SearchState) :
    (steps.foldl (reach q score source target c) s).frontier.length ≤
      s.frontier.length + steps.length := by
  induction steps generalizing s with
  | nil => exact Nat.le_refl _
  | cons step rest ih =>
      have := frontier_length_reach_le q score source target c s step
      have := ih (reach q score source target c s step)
      rw [List.foldl_cons, List.length_cons]
      omega

/-- Expands candidates until the target comes up; gives the labels at that point. -/
def explore (q : PathQuery) (score : Nat → Cell → Float) (source target : Cell)
    (unexpanded : List Cell) (s : SearchState) : Option (List Label) :=
  match _h : popLeast s.frontier with
  | none => none
  | some (c, others) =>
      if c.cell = target then some s.labels
      else if c.cell ∈ unexpanded then
        explore q score source target (unexpanded.erase c.cell)
          ((q.grid.steps c.cell).foldl (reach q score source target c.cell)
            { s with frontier := others })
      else explore q score source target unexpanded { s with frontier := others }
termination_by 4 * unexpanded.length + s.frontier.length
decreasing_by
  · -- an expansion adds at most four candidates
    rename_i hmem
    have hpos : 0 < unexpanded.length := List.length_pos_of_mem hmem
    have hpop := popLeast_length _h
    have hsteps := q.grid.length_steps_le c.cell
    have hreach := frontier_length_foldl_reach_le q score source target c.cell
      (q.grid.steps c.cell) { s with frontier := others }
    rw [List.length_erase_of_mem hmem]
    dsimp only at hreach
    omega
  · have := popLeast_length _h
    omega

def traceBack (labels : List Label) : Nat → Cell → List Cell
  | 0, c => [c]
  | n + 1, c => c :: (((label? labels c).bind Label.parent).map (traceBack labels n)).getD []

def findBy? (q : PathQuery) (score : Nat → Cell → Float) (source target : Cell) :
    Option (List Cell) :=
  (explore q score source target q.grid.cells
    ⟨[⟨source, 0, none⟩], [⟨source, score 0 source⟩]⟩).map fun labels =>
      (traceBack labels labels.length target).reverse

def verticalBias : Float := 1.01

def score (target : Cell) (cost : Nat) (c : Cell) : Float :=
  cost.toFloat + ((Cell.gap c.x target.x).toFloat + verticalBias * (Cell.gap c.y target.y).toFloat)

/-- A path from source to target, both included. -/
def find? (q : PathQuery) (source target : Cell) : Option (List Cell) :=
  findBy? q (score target) source target

end PathSearch

end SurfaceFabric
