import SurfaceFabric.Proofs.Pool.Faces
import SurfaceFabric.Proofs.Schedule.Budget

/-!
Simulations on pools that differ in the order, the handles and the entrances of their factories. They go in
lockstep: the same gates are offered a start at the same ticks and take it for the same number of cycles, and
only the factories that they bind may differ. So a circuit has the same schedule on both pools, or the same
deadlock, but for the bindings noted in it.
-/

namespace SurfaceFabric

def Start.unbound (s : Start) : Start := { s with binding := none }

structure Moment.Alike (m m' : Moment) : Prop where
  clock : m.clock = m'.clock
  pool : m.pool.Alike m'.pool
  started : m.started.map Start.unbound = m'.started.map Start.unbound
  running : m.running.map Start.unbound = m'.running.map Start.unbound
  finished : m.finished = m'.finished

structure Schedule.Alike (s s' : Schedule) : Prop where
  cycles : s.cycles = s'.cycles
  channels : s.channels = s'.channels
  layers : s.layers = s'.layers
  starts : s.starts = s'.starts
  ends : s.ends = s'.ends

theorem map_of_unbound {β : Type} {f : Start → β} {starts starts' : List Start}
    (h : starts.map Start.unbound = starts'.map Start.unbound) (hf : ∀ s, f s.unbound = f s) :
    starts.map f = starts'.map f := by
  have hmap := congrArg (List.map f) h
  simpa only [List.map_map, Function.comp_def, hf] using hmap

theorem filter_unbound {test : Start → Bool} {starts starts' : List Start}
    (h : starts.map Start.unbound = starts'.map Start.unbound) (htest : ∀ s, test s.unbound = test s) :
    (starts.filter test).map Start.unbound = (starts'.filter test).map Start.unbound := by
  have hfilter := congrArg (List.filter test) h
  simpa only [List.filter_map, Function.comp_def, htest] using hfilter

theorem sortBy_unbound (starts : List Start) : (sortBy (fun a b => a.node ≤ b.node) starts).map Start.unbound =
    sortBy (fun a b => a.node ≤ b.node) (starts.map Start.unbound) := by
  apply map_sortBy
  exact fun _ _ => rfl

namespace Job

variable {job : Job} {p q : Pool}

/-- A gate can start on both pools or on neither, for the same number of cycles. -/
theorem engage?_alike (h : p.Alike q) (g : Gate) (t : Nat) :
    engage? p g t = none ∧ engage? q g t = none ∨
      ∃ length binding binding' p' q', engage? p g t = some (length, binding, p') ∧
        engage? q g t = some (length, binding', q') ∧ p'.Alike q' := by
  rw [engage?, engage?]
  dsimp only
  cases g.factoryOperand? with
  | none => exact .inr ⟨_, _, _, p, q, rfl, rfl, h⟩
  | some s =>
      dsimp only
      rw [← h.binding?_isSome_eq]
      by_cases hkeep : (g.isReset || (p.binding? s).isSome) = true
      · rw [if_pos hkeep, if_pos hkeep]
        exact .inr ⟨_, _, _, p, q, rfl, rfl, h⟩
      · rw [if_neg hkeep, if_neg hkeep]
        obtain ⟨hp, hq⟩ | ⟨k, k', p', q', hp, hq, halike, hidle⟩ := h.take s
        · rw [hp, hq]
          exact .inl ⟨rfl, rfl⟩
        · rw [hp, hq]
          refine .inr ⟨_, some k.handle, some k'.handle, p'.commit k, q'.commit k', rfl, ?_, halike⟩
          rw [hidle]
          rfl

theorem settle_alike (h : p.Alike q) (t : Nat) (s : Start) : (job.settle t p s).Alike (job.settle t q s) := by
  rw [settle, settle]
  cases job.circuit.gate? s.node with
  | none => exact h
  | some g =>
      dsimp only
      split
      · cases g.factoryOperand? with
        | none => exact h
        | some u => exact h.free u t
      · exact h

theorem settleAll_unbound (job : Job) (t : Nat) (p : Pool) (starts : List Start) :
    (starts.map Start.unbound).foldl (job.settle t) p = starts.foldl (job.settle t) p := by
  rw [List.foldl_map]
  rfl

theorem settleAll_alike (h : p.Alike q) (t : Nat) (starts : List Start) :
    (starts.foldl (job.settle t) p).Alike (starts.foldl (job.settle t) q) := by
  induction starts generalizing p q with
  | nil => exact h
  | cons s rest ih => exact ih (settle_alike h t s)

def rows (job : Job) (m : Moment) : List Start :=
  (List.range job.circuit.size).map fun n => (startOf? m n).getD ⟨n, 0, 0, none⟩

end Job

namespace Moment.Alike

variable {job : Job} {m m' : Moment}

theorem waiting_eq (h : m.Alike m') : job.waiting m = job.waiting m' := by
  have hnodes : m.started.map Start.node = m'.started.map Start.node := map_of_unbound h.started fun _ => rfl
  have hnew (n : Nat) : (m.started.all fun s => s.node != n) = m'.started.all fun s => s.node != n := by
    have hall := congrArg (List.all · (· != n)) hnodes
    rwa [List.all_map, List.all_map] at hall
  rw [Job.waiting, Job.waiting, h.finished]
  simp only [hnew]

theorem hasChannel_eq (h : m.Alike m') (g : Gate) : job.hasChannel m g = job.hasChannel m' g := by
  have hnodes : m.running.map Start.node = m'.running.map Start.node := map_of_unbound h.running fun _ => rfl
  have hload := congrArg (List.countP job.isNonLocal) hnodes
  rw [List.countP_map, List.countP_map, List.countP_eq_length_filter, List.countP_eq_length_filter] at hload
  change (m.running.filter fun s => job.isNonLocal s.node).length =
    (m'.running.filter fun s => job.isNonLocal s.node).length at hload
  rw [Job.hasChannel, Job.hasChannel, hload]

theorem offer (h : m.Alike m') (n : Nat) : Agree Moment.Alike (job.offer m n) (job.offer m' n) := by
  rw [Job.offer, Job.offer]
  cases job.circuit.gate? n with
  | none => exact .ok h
  | some g =>
      dsimp only
      rw [h.hasChannel_eq, h.clock]
      split
      · exact .ok h
      · obtain ⟨hp, hq⟩ | ⟨length, binding, binding', p', q', hp, hq, halike⟩ :=
          Job.engage?_alike h.pool g m'.clock
        · rw [hp, hq]
          exact .ok h
        · rw [hp, hq]
          dsimp only
          cases Word.add m'.clock length with
          | error f => exact .error f
          | ok finish =>
              refine .ok ⟨rfl, halike, ?_, ?_, h.finished⟩
              · simp [h.started, Start.unbound]
              · simp [h.running, Start.unbound]

theorem offerAll (h : m.Alike m') : Agree Moment.Alike (job.offerAll m) (job.offerAll m') := by
  rw [Job.offerAll, Job.offerAll, h.waiting_eq]
  exact .foldlM h (fun _ _ n hmoments => hmoments.offer n) _

theorem nextDue_eq (h : m.Alike m') : (Job.nextDue m).1 = (Job.nextDue m').1 ∧
    (Job.nextDue m).2.map Start.unbound = (Job.nextDue m').2.map Start.unbound := by
  have hfinish : m.running.map Start.finish = m'.running.map Start.finish :=
    map_of_unbound h.running fun _ => rfl
  rw [Job.nextDue, Job.nextDue, hfinish, h.clock]
  refine ⟨rfl, ?_⟩
  dsimp only
  rw [sortBy_unbound, sortBy_unbound, filter_unbound h.running fun _ => rfl]

/-- The gates that are due end, and give the factories they reset back. -/
theorem complete (h : m.Alike m') (t : Nat) {due due' : List Start} {finished finished' : List Nat}
    (hdue : due.map Start.unbound = due'.map Start.unbound) (hfinished : finished = finished') :
    Moment.Alike
      ⟨t, due.foldl (job.settle t) m.pool, m.started, m.running.filter fun r => r.finish != t,
        finished ++ due.map Start.node⟩
      ⟨t, due'.foldl (job.settle t) m'.pool, m'.started, m'.running.filter fun r => r.finish != t,
        finished' ++ due'.map Start.node⟩ := by
  refine ⟨rfl, ?_, h.started, filter_unbound h.running fun _ => rfl, ?_⟩
  · show (due.foldl (job.settle t) m.pool).Alike (due'.foldl (job.settle t) m'.pool)
    rw [← Job.settleAll_unbound, hdue, Job.settleAll_unbound]
    exact Job.settleAll_alike h.pool t _
  · show finished ++ due.map Start.node = finished' ++ due'.map Start.node
    rw [hfinished, map_of_unbound hdue fun _ => rfl]

/-- Whole simulations go in lockstep. -/
theorem simulateFrom (h : m.Alike m') :
    Agree Moment.Alike (job.simulateFrom m) (job.simulateFrom m') := by
  induction hleft : job.circuit.size - m.finished.length using Nat.strong_induction_on
    generalizing m m' with
  | _ left ih =>
      rw [Job.simulateFrom, Job.simulateFrom]
      by_cases hsize : m.finished.length < job.circuit.size
      · rw [dif_pos hsize, dif_pos (h.finished ▸ hsize)]
        have hoffers : Agree Moment.Alike (job.offerAll m) (job.offerAll m') := h.offerAll
        generalize job.offerAll m = x, job.offerAll m' = y at hoffers ⊢
        cases hoffers with
        | error f => exact .error _
        | @ok next next' hnext =>
            obtain ⟨htick, hdue⟩ := hnext.nextDue_eq
            dsimp only
            generalize Job.nextDue next = first, Job.nextDue next' = first' at htick hdue ⊢
            obtain ⟨t, due⟩ := first
            obtain ⟨t', due'⟩ := first'
            obtain rfl : t = t' := htick
            dsimp only at hdue
            -- nothing is due in both runs, or each completes a gate at the same tick
            cases due with
            | nil =>
                obtain rfl : due' = [] := by simpa using hdue.symm
                dsimp only
                rw [h.clock, hnext.waiting_eq]
                exact .error _
            | cons s due =>
                cases due' with
                | nil => cases hdue
                | cons s' due' =>
                    refine ih _ ?_ (hnext.complete t hdue h.finished) rfl
                    simp only [List.map_cons, List.length_append, List.length_cons]
                    omega
      · rw [dif_neg hsize, dif_neg (h.finished ▸ hsize)]
        exact .ok h

theorem startOf?_eq (h : m.Alike m') (n : Nat) :
    (Job.startOf? m n).map Start.unbound = (Job.startOf? m' n).map Start.unbound := by
  have hfind := congrArg (List.find? fun s => s.node == n) h.started
  rwa [List.find?_map, List.find?_map] at hfind

theorem rows_eq (h : m.Alike m') : (job.rows m).map Start.unbound = (job.rows m').map Start.unbound := by
  rw [Job.rows, Job.rows, List.map_map, List.map_map]
  refine List.map_congr_left fun n _ => ?_
  have hrow (m : Moment) : ((Job.startOf? m n).getD ⟨n, 0, 0, none⟩).unbound =
      ((Job.startOf? m n).map Start.unbound).getD ⟨n, 0, 0, none⟩ := by
    cases Job.startOf? m n <;> rfl
  show ((Job.startOf? m n).getD _).unbound = ((Job.startOf? m' n).getD _).unbound
  rw [hrow, hrow, h.startOf?_eq]

theorem scheduleOf (h : m.Alike m') : (job.scheduleOf m).Alike (job.scheduleOf m') := by
  have hstarts : (job.rows m).map Start.start = (job.rows m').map Start.start :=
    map_of_unbound h.rows_eq fun _ => rfl
  have hends : (job.rows m).map Start.finish = (job.rows m').map Start.finish :=
    map_of_unbound h.rows_eq fun _ => rfl
  have hadmitted : (m.started.map fun s => (s.node, s.start)) = m'.started.map fun s => (s.node, s.start) :=
    map_of_unbound h.started fun _ => rfl
  refine ⟨congrArg (fun ends => ends.max?.getD 0) hends, rfl, ?_, hstarts, hends⟩
  show layersOf (((job.rows m).map Start.finish).max?.getD 0) _ =
    layersOf (((job.rows m').map Start.finish).max?.getD 0) _
  rw [hends, hadmitted]

end Moment.Alike

namespace Schedule

variable {p q : Pool}

theorem better_alike {best best' next next' : Except Deadlock Schedule} (hbest : Agree Alike best best')
    (hnext : Agree Alike next next') : Agree Alike (better best next) (better best' next') := by
  cases hbest with
  | error e => exact hnext
  | @ok b b' hb =>
      cases hnext with
      | error e => exact .ok hb
      | @ok s s' hs =>
          rw [better_ok_ok, better_ok_ok, hb.cycles, hs.cycles]
          split
          · exact .ok hb
          · exact .ok hs

theorem simulateCap_alike (h : p.Alike q) (c : Circuit) (slacks : List Nat) (k : Nat) :
    Agree (Agree Alike) (simulateCap c p slacks k) (simulateCap c q slacks k) := by
  have hstart : Moment.Alike ⟨0, p, [], [], []⟩ ⟨0, q, [], [], []⟩ := ⟨rfl, h, rfl, rfl, rfl⟩
  have hruns : Agree Alike (Job.simulate ⟨c, slacks, k⟩ p) (Job.simulate ⟨c, slacks, k⟩ q) :=
    hstart.simulateFrom.bind fun _ _ hlast => .ok hlast.scheduleOf
  exact Outcome.settle_agree_iff.2 hruns

theorem tryCaps_alike (h : p.Alike q) (c : Circuit) (slacks : List Nat) (n : Nat) :
    Agree (Agree Alike) (tryCaps c p slacks n) (tryCaps c q slacks n) := by
  refine (simulateCap_alike h c slacks 1).bind fun first first' hfirst => .foldlM hfirst ?_ _
  intro best best' k hbest
  exact (simulateCap_alike h c slacks (k + 2)).bind fun next next' hnext => .ok (better_alike hbest hnext)

/-- A circuit has the same schedule on both pools but for the bindings, or the same deadlock. -/
theorem ofCircuit_alike (h : p.Alike q) (c : Circuit) (budget : Nat) :
    Agree Alike (ofCircuit c p budget) (ofCircuit c q budget) := by
  cases hslacks : c.slacks with
  | error f =>
      rw [ofCircuit, ofCircuit, hslacks]
      exact .error _
  | ok slacks =>
      apply Outcome.settle_agree_iff.1
      rw [settle_ofCircuit hslacks, settle_ofCircuit hslacks]
      exact tryCaps_alike h c slacks _

end Schedule

end SurfaceFabric
