import SurfaceFabric.Proofs.Schedule.Validity

/-!
What a larger budget of channels changes. With as many channels as there are non-local gates a waiting gate
never lacks one, so all wider simulations are one and the same, and leaving them out changes nothing but the
number of channels noted in the schedule. The caps tried within a budget are also tried within a larger one,
so a larger budget never gives a slower schedule.
-/

namespace SurfaceFabric

namespace Job

variable {job : Job} {m m' : Moment} {k n : Nat}

theorem Timely.offer (h : Timely job m) (hbuilt : job.circuit.Built) (hn : n ∈ job.waiting m)
    (hoffer : job.offer m n = .ok m') : Timely job m' := by
  rcases offer_cases hn hoffer with rfl | ⟨hevent, -⟩
  · exact h
  · exact h.reaches hbuilt (.single hevent)

/-- An offer that faults would have its gate end past the largest word. -/
theorem Timely.overflow_of_offer (h : Timely job m) (hbuilt : job.circuit.Built) (hn : n ∈ job.waiting m)
    {f : Fault} (hoffer : job.offer m n = .error f) :
    f = .overflow ∧ Word.top < job.circuit.totalCycles := by
  rw [Job.offer] at hoffer
  split at hoffer
  · cases hoffer
  · next g hgate =>
      split at hoffer
      · cases hoffer
      · next hchannel =>
          rw [Bool.not_eq_true, Bool.not_eq_false'] at hchannel
          split at hoffer
          · cases hoffer
          · next length binding pool hengage =>
              have hbegun := (h.begin hbuilt hn hgate hchannel hengage).tracked
              have hfinish : m.clock + length ≤ job.circuit.totalCycles :=
                (hbegun.finish_le _ (List.mem_append_right _ List.mem_cons_self)).trans hbegun.spent_le
              by_cases hfit : m.clock + length ≤ Word.top
              · rw [Word.add, if_pos hfit] at hoffer
                cases hoffer
              · rw [Word.add, if_neg hfit] at hoffer
                cases hoffer
                exact ⟨rfl, by omega⟩

end Job

namespace Schedule

variable {c : Circuit} {pool : Pool} {slacks : List Nat} {n : Nat}

def dropChannels (s : Schedule) : Schedule := { s with channels := 0 }

theorem better_ok_ok (best s : Schedule) :
    better (.ok best) (.ok s) = .ok (if best.cycles < s.cycles then best else s) := by
  rw [better]
  by_cases hlt : best.cycles < s.cycles
  · rw [if_neg (by omega), if_pos hlt]
  · rw [if_pos (by omega), if_neg hlt]

theorem tryCaps_succ (c : Circuit) (pool : Pool) (slacks : List Nat) (n : Nat) :
    tryCaps c pool slacks (n + 1) = (tryCaps c pool slacks n >>= fun best => do
      return better best (← simulateCap c pool slacks (n + 2)) : Checked (Except Deadlock Schedule)) := by
  rw [tryCaps, tryCaps, List.range_succ]
  cases simulateCap c pool slacks 1 with
  | error f => rfl
  | ok first =>
      show List.foldlM _ first (_ ++ [n]) = (List.foldlM _ first _ >>= _ : Checked (Except Deadlock Schedule))
      rw [List.foldlM_append]
      simp

def bare (x : Checked (Except Deadlock Schedule)) : Checked (Except Deadlock Schedule) :=
  x.map (Except.map dropChannels)

theorem settle_ofCircuit (hslacks : c.slacks = .ok slacks) (pool : Pool) (budget : Nat) :
    (ofCircuit c pool budget).settle =
      tryCaps c pool slacks (max (min (max budget 1) (nonLocalCount c)) 1 - 1) := by
  rw [ofCircuit, hslacks]
  show Outcome.settle (liftM (tryCaps c pool slacks _) >>= _) = _
  rcases tryCaps c pool slacks _ with f | e | s <;> rfl

theorem overflow_of_simulateCap (hbuilt : c.Built) {k : Nat} {f : Fault}
    (h : simulateCap c pool slacks k = .error f) : f = .overflow ∧ Word.top < c.totalCycles := by
  rw [simulateCap, Outcome.settle_eq_error_iff, Job.simulate_eq_error_iff] at h
  obtain ⟨last, n, hreach, hn, hoffer⟩ := Job.reaches_fault_of_simulateFrom h
  exact ((Job.timely_start ⟨c, slacks, k⟩ pool).reaches hbuilt hreach).overflow_of_offer hbuilt hn hoffer

/-- No schedule is longer than the gates take one after the other. -/
theorem cycles_le_totalCycles (hbuilt : c.Built) {budget : Nat} {s : Schedule}
    (h : ofCircuit c pool budget = .ok s) :
    s.cycles ≤ c.totalCycles := by
  obtain ⟨slacks, channels, -, h⟩ := exists_simulate_of_ofCircuit h
  obtain ⟨m, hreach, -, rfl⟩ := Job.reaches_of_simulate h
  have htimely := (Job.timely_start _ pool).reaches hbuilt hreach
  have hspent := htimely.tracked.spent_le
  refine max?_getD_le ?_
  simp only [List.forall_mem_map]
  intro n _
  cases hstart : Job.startOf? m n with
  | none => exact Nat.zero_le _
  | some s =>
      -- a gate that was started runs, or has ended by now
      have hmem : s ∈ m.started := List.mem_of_find?_eq_some hstart
      by_cases hrunning : m.clock < s.finish
      · exact (htimely.tracked.finish_le s ((htimely.running_iff s).2 ⟨hmem, hrunning⟩)).trans hspent
      · exact (Nat.not_lt.1 hrunning).trans (htimely.tracked.clock_le.trans hspent)

end Schedule

namespace LongWait

/-- With one channel the wait of `r` begins at tick 4. With two, both long gates start before the one that it
waits for. -/
def circuit : Circuit :=
  ((((((Circuit.empty.append (.single "h" (.register "r") 3)).append
    (.joint "cx" [.register "a", .register "b"] 2)).append (.joint "cx" [.register "c", .register "d"] 1)).append
    (.joint "cx" [.register "e", .register "f"] 100)).append
    (.joint "cx" [.register "g", .register "i"] 100)).append (.joint "cx" [.register "r", .register "s"] 1)).append
    (.single "wait" (.register "r") 4294967245)

theorem built_circuit : circuit.Built :=
  ((((((Circuit.Built.empty.extend (by decide)).extend (by decide)).extend (by decide)).extend (by decide)).extend
    (by decide)).extend (by decide)).extend (by decide)

end LongWait

end SurfaceFabric
