import SurfaceFabric.Proofs.Circuit.ProgramOrder
import SurfaceFabric.Proofs.Outcome

/-!
Counting dependencies down. A gate may be tracked by the number of dependencies that it still waits for, and is
ready when this number gets to zero. Every gate that finishes is counted off once for each of its dependents, so
no number is ever taken below zero, and the gates at zero are just those whose dependencies have finished.
-/

namespace SurfaceFabric.Circuit

variable {c : Circuit} {finished : List Nat} {n : Nat}

/-- For each gate, how many of its dependencies are not finished. -/
def pending (c : Circuit) (finished : List Nat) : List Nat :=
  (List.range c.size).map fun n => ((c.dependencies n).filter (· ∉ finished)).length

def lower (counts : List Nat) (k : Nat) : Checked (List Nat) := do
  let some left := counts[k]? | .error .overflow
  return counts.set k (← Word.sub left 1)

/-- Counts a finished gate off for all that depend on it. -/
def countOff (c : Circuit) (counts : List Nat) (n : Nat) : Checked (List Nat) :=
  (c.dependents n).foldlM lower counts

theorem lower_eq {size k : Nat} {f : Nat → Nat} (hk : k < size) (hpos : 0 < f k) :
    lower ((List.range size).map f) k =
      .ok ((List.range size).map fun j => if j = k then f j - 1 else f j) := by
  have hget : ((List.range size).map f)[k]? = some (f k) := by simp [hk]
  unfold lower
  rw [hget]
  refine bind_eq_ok_iff.2 ⟨f k - 1, Word.sub_eq_ok_iff.2 ⟨hpos, rfl⟩, congrArg Except.ok ?_⟩
  apply List.ext_getElem?
  intro j
  by_cases hj : j = k
  · subst hj
    simp [hk]
  · rw [List.getElem?_set_ne (Ne.symm hj), List.getElem?_map, List.getElem?_map]
    by_cases hlt : j < size
    · simp [hlt, hj]
    · simp [hlt]

theorem foldlM_lower {size : Nat} {ks : List Nat} {f : Nat → Nat} (hnodup : ks.Nodup)
    (hks : ∀ k ∈ ks, k < size ∧ 0 < f k) :
    ks.foldlM lower ((List.range size).map f) =
      .ok ((List.range size).map fun j => if j ∈ ks then f j - 1 else f j) := by
  induction ks generalizing f with
  | nil => simp [pure, Except.pure]
  | cons k rest ih =>
      obtain ⟨hk, hrest⟩ := List.nodup_cons.1 hnodup
      obtain ⟨hlt, hpos⟩ := hks k List.mem_cons_self
      rw [List.foldlM_cons, lower_eq hlt hpos]
      refine (ih hrest fun j hj => ?_).trans (congrArg Except.ok (List.map_congr_left fun j _ => ?_))
      · obtain ⟨hj', hpos'⟩ := hks j (List.mem_cons_of_mem _ hj)
        rw [if_neg (by rintro rfl; exact hk hj)]
        exact ⟨hj', hpos'⟩
      · by_cases hj : j = k
        · subst hj
          simp [hk]
        · simp [hj]

/-- The numbers to begin with are those of all dependencies. -/
theorem pending_nil (c : Circuit) : c.pending [] = (List.range c.size).map fun n => (c.dependencies n).length := by
  simp [pending]

theorem getElem?_pending : (c.pending finished)[n]? = some 0 ↔
    n < c.size ∧ ∀ p ∈ c.dependencies n, p ∈ finished := by
  by_cases hlt : n < c.size
  · simp [pending, hlt]
  · simp [pending, hlt]

/-- A gate that finishes is counted off wherever it was counted. -/
theorem Built.countOff_pending (hbuilt : c.Built) (hn : n ∉ finished) :
    c.countOff (c.pending finished) n = .ok (c.pending (finished ++ [n])) := by
  have hdependents : (c.dependents n).Nodup := List.nodup_range.filter _
  refine (foldlM_lower hdependents fun k hk => ?_).trans (congrArg Except.ok (List.map_congr_left fun k hk => ?_))
  · have hdep := mem_dependents.1 hk
    have hlt := List.mem_range.1 (List.mem_filter.1 hk).1
    exact ⟨hlt, List.length_pos_of_mem (List.mem_filter.2 ⟨hdep, by simpa using hn⟩)⟩
  · -- a dependency is listed once, so one less is left
    have hnodup : ((c.dependencies k).filter (· ∉ finished)).Nodup :=
      ((hbuilt.dependencies_ascending k).imp fun hlt => hlt.ne).filter _
    have hleft : (c.dependencies k).filter (· ∉ finished ++ [n]) =
        ((c.dependencies k).filter (· ∉ finished)).erase n := by
      rw [hnodup.erase_eq_filter, List.filter_filter]
      refine List.filter_congr fun p _ => ?_
      by_cases hp : p = n <;> simp [hp]
    rw [hleft]
    split
    · next hk =>
        rw [List.length_erase_of_mem]
        exact List.mem_filter.2 ⟨mem_dependents.1 hk, by simpa using hn⟩
    · next hk' =>
        rw [List.erase_of_not_mem]
        intro hmem
        exact hk' (mem_dependents.2 (List.mem_filter.1 hmem).1)

/-- Gates that finish one by one, each of them once, are all counted off. -/
theorem Built.foldlM_countOff (hbuilt : c.Built) {later : List Nat} (hnodup : (finished ++ later).Nodup) :
    later.foldlM c.countOff (c.pending finished) = .ok (c.pending (finished ++ later)) := by
  induction later generalizing finished with
  | nil => simp [pure, Except.pure]
  | cons n rest ih =>
      have hn : n ∉ finished := fun hmem => (List.nodup_append.1 hnodup).2.2 n hmem n List.mem_cons_self rfl
      have hmoved : finished ++ n :: rest = (finished ++ [n]) ++ rest := by simp
      rw [hmoved] at hnodup ⊢
      rw [List.foldlM_cons, hbuilt.countOff_pending hn]
      exact ih hnodup

/-- Gates are started once and end once, after they were started. Counters that begin with all dependencies and are
lowered as gates end are not taken below zero, and the gates that wait are those at zero that were not started. -/
structure Accounted (c : Circuit) (started finished waiting : List Nat) : Prop where
  started_lt : ∀ n ∈ started, n < c.size
  nodup : started.Nodup
  ended : finished.Subperm started
  counted : finished.foldlM c.countOff ((List.range c.size).map fun n => (c.dependencies n).length) =
    .ok (c.pending finished)
  mem_waiting : ∀ n, n ∈ waiting ↔ (c.pending finished)[n]? = some 0 ∧ n ∉ started

theorem Built.accounted (hbuilt : c.Built) {started running waiting : List Nat} (hnodup : started.Nodup)
    (hlt : ∀ n ∈ started, n < c.size) (hsplit : (finished ++ running).Perm started)
    (hwaiting : ∀ n, n ∈ waiting ↔ n < c.size ∧ (∀ p ∈ c.dependencies n, p ∈ finished) ∧ n ∉ started) :
    c.Accounted started finished waiting := by
  have hsub : finished.Subperm started := (List.sublist_append_left finished running).subperm.trans hsplit.subperm
  refine ⟨hlt, hnodup, hsub, ?_, fun n => ?_⟩
  · have hfinished : ([] ++ finished).Nodup := (List.nodup_append.1 (hsplit.nodup_iff.2 hnodup)).1
    rw [← pending_nil]
    exact hbuilt.foldlM_countOff hfinished
  · rw [hwaiting, getElem?_pending, and_assoc]

end SurfaceFabric.Circuit
