import SurfaceFabric.Placement.Fill
import SurfaceFabric.Proofs.Rect

/-!
Stacks of registers by their shape alone. The arithmetic of a stack stays in the word if the bounds of its
rectangle are words; what it gives then, and whatever it gives at all, is a plan whose pieces share out the
rows that the stack takes.
-/

namespace SurfaceFabric

namespace Tiling

variable {t : Tiling} {r band : Rect} {base : Side} {i n x : Nat}

def rowsOf (base : Side) (r : Rect) (i n : Nat) : Rect :=
  match base with
  | .below => ⟨r.y1 - i - n, r.x0, r.y1 - i, r.x1⟩
  | _ => ⟨r.y0 + i, r.x0, r.y0 + i + n, r.x1⟩

theorem rowsFrom_eq_ok (h : rowsFrom base r i n = .ok band) : band = rowsOf base r i n := by
  unfold rowsFrom at h
  obtain ⟨w, hw, h⟩ := bind_eq_ok_iff.1 h
  obtain ⟨hle, rfl⟩ := Word.sub_eq_ok_iff.1 hw
  cases base <;>
    simp only [bind_eq_ok_iff, Word.sub_eq_ok_iff, Word.add_eq_ok_iff] at h
  case below =>
    obtain ⟨_, ⟨-, rfl⟩, _, ⟨hn, rfl⟩, hbox⟩ := h
    rw [Rect.ofBox_eq_ok hbox, Nat.sub_add_cancel hn, Nat.add_sub_cancel' hle]
    rfl
  all_goals
    obtain ⟨_, ⟨-, rfl⟩, hbox⟩ := h
    rw [Rect.ofBox_eq_ok hbox, Nat.add_sub_cancel' hle]
    rfl

theorem failsOnly_rowsFrom {B : Prop} (hr : r.Inhabited) (hB : B → r.InWord) (hfit : i + n ≤ r.y1 - r.y0) :
    FailsOnly (Fault.Allowed B) (rowsFrom base r i n) := by
  obtain ⟨hy, hx⟩ := hr
  refine (Word.failsOnly_sub fun _ => hx.le).bind fun w hw => ?_
  obtain ⟨-, rfl⟩ := Word.sub_eq_ok_iff.1 hw
  cases base
  case below =>
    refine (Word.failsOnly_sub fun _ => by omega).bind fun y hy => ?_
    obtain ⟨-, rfl⟩ := Word.sub_eq_ok_iff.1 hy
    refine (Word.failsOnly_sub fun _ => by omega).bind fun y hy => ?_
    obtain ⟨-, rfl⟩ := Word.sub_eq_ok_iff.1 hy
    refine Rect.failsOnly_ofBox fun h => ?_
    obtain ⟨hlow, hright⟩ := hB h
    constructor <;> dsimp only <;> omega
  all_goals
    refine (Word.failsOnly_add fun h => ?_).bind fun y hy => ?_
    · have := (hB h).1
      omega
    · obtain ⟨-, rfl⟩ := Word.add_eq_ok_iff.1 hy
      refine Rect.failsOnly_ofBox fun h => ?_
      obtain ⟨hlow, hright⟩ := hB h
      constructor <;> dsimp only <;> omega

def dropAt (x : Nat) (band : Rect) : List Piece :=
  [.taken .register { band with x1 := x }, .taken .route { band with x0 := x, x1 := x + 1 },
    .taken .register { band with x0 := x + 1 }]

theorem splitBand_eq_ok_iff {pieces : List Piece} :
    splitBand x band = .ok pieces ↔ x + 1 ≤ Word.top ∧ pieces = dropAt x band := by
  simp only [splitBand, bind_eq_ok_iff, Word.add_eq_ok_iff, pure_eq_ok_iff]
  constructor
  · rintro ⟨_, ⟨hle, rfl⟩, rfl⟩
    exact ⟨hle, rfl⟩
  · rintro ⟨hle, rfl⟩
    exact ⟨_, ⟨hle, rfl⟩, rfl⟩

def stackPlan (t : Tiling) (r : Rect) (base : Side) : Rect × List Piece :=
  let h := r.y1 - r.y0
  let w := r.x1 - r.x0
  let middle := r.x0 + w / 2
  let far := if base = .below then t.columnsAbove r else t.columnsBelow r
  if h = 1 then (r, [.taken .register r])
  else if w = 1 then
    (r, [.taken .route (rowsOf base r 0 (h - 1)), .taken .register (rowsOf base r (h - 1) 1)])
  else if h = 2 then
    if far.length = w then (r, [.taken .register r])
    else (r, dropAt middle (rowsOf base r 0 1) ++ [.taken .route (rowsOf base r 1 1)])
  else (rowsOf base r 0 3, dropAt middle (rowsOf base r 0 2) ++ [.taken .route (rowsOf base r 2 1)])

theorem stackPieces_eq_ok {plan : Rect × List Piece} (h : t.stackPieces r base = .ok plan) :
    plan = t.stackPlan r base := by
  unfold stackPieces at h
  obtain ⟨height, hheight, h⟩ := bind_eq_ok_iff.1 h
  obtain ⟨width, hwidth, h⟩ := bind_eq_ok_iff.1 h
  obtain ⟨-, rfl⟩ := Word.sub_eq_ok_iff.1 hheight
  obtain ⟨-, rfl⟩ := Word.sub_eq_ok_iff.1 hwidth
  unfold stackPlan
  dsimp only
  split at h
  · next hrow => rw [if_pos hrow, pure_eq_ok_iff.1 h]
  next hrow =>
  rw [if_neg hrow]
  split at h
  · next hcolumn =>
      rw [if_pos hcolumn]
      simp only [bind_eq_ok_iff, Word.sub_eq_ok_iff, pure_eq_ok_iff] at h
      obtain ⟨_, ⟨-, rfl⟩, corridor, hcorridor, last, hlast, rfl⟩ := h
      rw [rowsFrom_eq_ok hcorridor, rowsFrom_eq_ok hlast]
  next hcolumn =>
  rw [if_neg hcolumn]
  obtain ⟨middle, hmiddle, h⟩ := bind_eq_ok_iff.1 h
  obtain ⟨-, rfl⟩ := Word.add_eq_ok_iff.1 hmiddle
  generalize (if base = .below then t.columnsAbove r else t.columnsBelow r) = far at h ⊢
  dsimp only at h
  split at h
  · next hpair =>
      rw [if_pos hpair]
      split at h
      · next hfar => rw [if_pos hfar, pure_eq_ok_iff.1 h]
      · next hfar =>
          rw [if_neg hfar]
          simp only [bind_eq_ok_iff, splitBand_eq_ok_iff, pure_eq_ok_iff] at h
          obtain ⟨near, hnear, _, ⟨-, rfl⟩, next, hnext, rfl⟩ := h
          rw [rowsFrom_eq_ok hnear, rowsFrom_eq_ok hnext]
  · next hpair =>
      rw [if_neg hpair]
      simp only [bind_eq_ok_iff, splitBand_eq_ok_iff, pure_eq_ok_iff] at h
      obtain ⟨near, hnear, _, ⟨-, rfl⟩, band, hband, next, hnext, rfl⟩ := h
      rw [rowsFrom_eq_ok hnear, rowsFrom_eq_ok hband, rowsFrom_eq_ok hnext]

theorem failsOnly_stackPieces {B : Prop} (hr : r.Inhabited) (hB : B → r.InWord) :
    FailsOnly (Fault.Allowed B) (t.stackPieces r base) := by
  have hrows {i n : Nat} (hfit : i + n ≤ r.y1 - r.y0) : FailsOnly (Fault.Allowed B) (rowsFrom base r i n) :=
    failsOnly_rowsFrom hr hB hfit
  obtain ⟨hy, hx⟩ := hr
  have hmiddle (h : B) : r.x0 + (r.x1 - r.x0) / 2 + 1 ≤ Word.top := by
    have := (hB h).2
    omega
  have hdrop (band : Rect) :
      FailsOnly (Fault.Allowed B) (splitBand (r.x0 + (r.x1 - r.x0) / 2) band) :=
    (Word.failsOnly_add hmiddle).bind fun _ _ => .pure _
  refine (Word.failsOnly_sub fun _ => hy.le).bind fun h hh => ?_
  refine (Word.failsOnly_sub fun _ => hx.le).bind fun w hw => ?_
  obtain ⟨-, rfl⟩ := Word.sub_eq_ok_iff.1 hh
  obtain ⟨-, rfl⟩ := Word.sub_eq_ok_iff.1 hw
  refine .ite (fun _ => .pure _) fun hrow => .ite (fun hcolumn => ?_) fun hcolumn => ?_
  · refine (Word.failsOnly_sub fun _ => by omega).bind fun n hn => ?_
    obtain ⟨-, rfl⟩ := Word.sub_eq_ok_iff.1 hn
    refine (hrows (by omega)).bind fun corridor _ => (hrows (by omega)).bind fun last _ => .pure _
  · refine (Word.failsOnly_add fun h => by have := hmiddle h; omega).bind fun middle hmiddle => ?_
    obtain ⟨-, rfl⟩ := Word.add_eq_ok_iff.1 hmiddle
    refine .ite (fun hpair => .ite (fun _ => .pure _) fun _ => ?_) fun hpair => ?_
    · refine (hrows (by omega)).bind fun near _ => (hdrop near).bind fun pieces _ => ?_
      exact (hrows (by omega)).bind fun next _ => .pure _
    · refine (hrows (by omega)).bind fun near _ => (hdrop near).bind fun pieces _ => ?_
      exact (hrows (by omega)).bind fun band _ => (hrows (by omega)).bind fun next _ => .pure _

theorem rowsOf_all (hr : r.Inhabited) (hn : n = r.y1 - r.y0) : rowsOf base r 0 n = r := by
  obtain ⟨hy, -⟩ := hr
  have htop : r.y0 + (r.y1 - r.y0) = r.y1 := Nat.add_sub_cancel' hy.le
  have hbottom : r.y1 - (r.y1 - r.y0) = r.y0 := Nat.sub_sub_self hy.le
  subst hn
  cases base <;> simp only [rowsOf, Nat.add_zero, Nat.sub_zero, htop, hbottom]

/-- Rows next to each other. -/
theorem tiles_rowsOf (base : Side) (r : Rect) (n m : Nat) :
    (rowsOf base r 0 (n + m)).Tiles [rowsOf base r 0 n, rowsOf base r n m] := by
  constructor
  · simp only [List.pairwise_cons, List.forall_mem_cons, List.not_mem_nil, false_implies, implies_true,
      and_true, List.Pairwise.nil, Rect.Apart, Rect.mem_iff]
    cases base <;> dsimp only [rowsOf] <;> intro c <;> omega
  · intro c
    simp only [List.mem_cons, List.not_mem_nil, or_false, exists_eq_or_imp, exists_eq_left, Rect.mem_iff]
    cases base <;> dsimp only [rowsOf] <;> omega

theorem tiles_dropAt (hx0 : band.x0 ≤ x) (hx1 : x < band.x1) :
    band.Tiles ((dropAt x band).map Piece.rect) := by
  constructor <;> simp only [dropAt, List.map_cons, List.map_nil, Piece.taken]
  · simp only [List.pairwise_cons, List.forall_mem_cons, List.not_mem_nil, false_implies, implies_true,
      and_true, List.Pairwise.nil, Rect.Apart, Rect.mem_iff]
    and_intros <;> intro c <;> omega
  · intro c
    simp only [List.mem_cons, List.not_mem_nil, or_false, exists_eq_or_imp, exists_eq_left, Rect.mem_iff]
    omega

/-- Rows of registers with a drop between them, and the rows behind them. -/
theorem tiles_dropRows (base : Side) (n m : Nat) (hx0 : r.x0 ≤ x) (hx1 : x < r.x1) :
    (rowsOf base r 0 (n + m)).Tiles
      ((dropAt x (rowsOf base r 0 n) ++ [Piece.taken .route (rowsOf base r n m)]).map Piece.rect) := by
  rw [List.map_append]
  refine (tiles_rowsOf base r n m).graft (tiles_dropAt ?_ ?_) <;> cases base <;> assumption

/-- The pieces of a stack share out its rows, which lie in the rectangle. -/
theorem tiles_stackPlan (hr : r.Inhabited) : r.includes (t.stackPlan r base).1 = true ∧
    (t.stackPlan r base).1.Inhabited ∧ (t.stackPlan r base).1.Tiles ((t.stackPlan r base).2.map Piece.rect) := by
  have hself : r.includes r = true := (Rect.includes_iff hr).2 fun _ => id
  have hall {n : Nat} (hn : n = r.y1 - r.y0) : rowsOf base r 0 n = r := rowsOf_all hr hn
  have hwhole := Rect.Tiles.singleton r
  have ⟨hy, hx⟩ := hr
  unfold stackPlan
  dsimp only
  generalize (if base = .below then t.columnsAbove r else t.columnsBelow r) = far
  split_ifs with hrow hcolumn hpair hfar
  · exact ⟨hself, hr, hwhole⟩
  · have hrows := tiles_rowsOf base r (r.y1 - r.y0 - 1) 1
    rw [hall (by omega)] at hrows
    exact ⟨hself, hr, hrows⟩
  · exact ⟨hself, hr, hwhole⟩
  · have hrows := tiles_dropRows (r := r) (x := r.x0 + (r.x1 - r.x0) / 2) base 1 1 (by omega) (by omega)
    rw [hall (by omega)] at hrows
    exact ⟨hself, hr, hrows⟩
  · refine ⟨?_, ?_, tiles_dropRows base 2 1 (by omega) (by omega)⟩
    · simp only [Rect.includes, Bool.and_eq_true, decide_eq_true_eq]
      cases base <;> dsimp only [rowsOf] <;> omega
    · cases base <;> exact ⟨by dsimp only [rowsOf]; omega, hx⟩

/-- A stack is carved out of its segment by plan. -/
theorem carve_of_stack {t' : Tiling} {s : Segment} (h : t.stack s base = .ok t') :
    t.carve s (t.stackPlan s.rect base).1 (t.stackPlan s.rect base).2 = .ok t' := by
  obtain ⟨plan, hplan, h⟩ := bind_eq_ok_iff.1 h
  rwa [← stackPieces_eq_ok (Outcome.liftM_eq_ok_iff.1 hplan)]

/-- A stack takes all of its rectangle, or three rows that end in routing. -/
theorem stackPlan_cases (hr : r.Inhabited) (base : Side) : (t.stackPlan r base).1 = r ∨
    3 ≤ r.y1 - r.y0 ∧ (t.stackPlan r base).1 = rowsOf base r 0 3 ∧
      .taken .route (rowsOf base r 2 1) ∈ (t.stackPlan r base).2 := by
  obtain ⟨hy, -⟩ := hr
  unfold stackPlan
  dsimp only
  generalize (if base = .below then t.columnsAbove r else t.columnsBelow r) = far
  split_ifs
  · exact .inl rfl
  · exact .inl rfl
  · exact .inl rfl
  · exact .inl rfl
  · exact .inr ⟨by omega, rfl, by simp⟩

end Tiling

end SurfaceFabric
