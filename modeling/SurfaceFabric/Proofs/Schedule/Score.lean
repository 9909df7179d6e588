import SurfaceFabric.Pipeline
import SurfaceFabric.Proofs.Mapping.Fresh
import SurfaceFabric.Proofs.Schedule.Lockstep

/-!
The score of a layout is the length of the schedule that its circuit is given. The score takes the factories in
the order they were placed and the schedule takes them as the slot tree hands them out, so the two may bind
different factories, but the pools are alike.
-/

namespace SurfaceFabric

/-- The pool that a layout is scored with and the pool of a fresh mapping are alike. -/
theorem Mapping.alike_ofLayout {l : Layout} {grid : Rect} {anchor : Cell} (h : Layout.Founded l grid anchor)
    (howned : l.Owned) : (Pool.ofLayout l).Alike (Mapping.ofLayout l).pool := by
  obtain ⟨-, -, hpool, -⟩ := exists_fresh h howned
  have hdistinct : (Pool.ofLayout l).Distinct := Pool.distinct_of_pairwise h.pairwise_handles
  refine ⟨.of_free hdistinct fun _ => Pool.free_ofLayout, .of_free ?_ ?_, ?_⟩
  · exact (hpool.map PoolSlot.handle).nodup_iff.2 hdistinct
  · exact fun slot hslot => Pool.free_ofLayout (hpool.mem_iff.1 hslot)
  · exact (hpool.map PoolSlot.face).symm

def Artifacts.scheduled (a : Artifacts) : Outcome Deadlock Schedule → StageResult
  | .ok s => .ok ({ a with schedule := some s }, .ok ())
  | .error (.refused e) => .ok (a, .error (.deadlock e))
  | .error (.fault f) => .error f

theorem Stage.scheduling_run {c : Circuit} {a : Artifacts} {l : Layout} {m : Mapping}
    (hlayout : a.layout = some l) (hmapping : a.mapping = some m) :
    Stage.scheduling.run c a = a.scheduled (Schedule.ofCircuit c m.pool l.channels) := by
  have hl : Part.layout.need a.layout = .ok l := by rw [hlayout]; rfl
  have hm : Part.mapping.need a.mapping = .ok m := by rw [hmapping]; rfl
  show StageResult.ofOutcome a (a.schedulePart c) = _
  rw [Artifacts.schedulePart, hl, hm]
  show StageResult.ofOutcome a ((Schedule.ofCircuit c m.pool l.channels).mapRefusal .deadlock >>= _) = _
  rcases Schedule.ofCircuit c m.pool l.channels with (f | e) | s <;> rfl

def Proposal.scoreOf : Outcome Deadlock Schedule → Outcome CompileError Nat
  | .ok s => .ok s.cycles
  | .error (.refused e) => .error (.refused (.deadlock e))
  | .error (.fault f) => .error (.fault f)

theorem Proposal.evaluate_eq (c : Circuit) (l : Layout) :
    evaluate c l = scoreOf (Schedule.ofCircuit c (.ofLayout l) l.channels) := by
  rw [evaluate]
  rcases Schedule.ofCircuit c (.ofLayout l) l.channels with (f | e) | s <;> rfl

/-- A circuit is scheduled in the same way whatever the order of the factories, up to which of them are bound. So
the score of a layout that was placed is the length of the schedule made for it from a fresh mapping, and the
score fails just as that schedule does. -/
theorem evaluate_eq_scheduled_length :
    (∀ (c : Circuit) (budget : Nat) (p q : Pool), p.Orderly → q.Orderly →
      (p.slots.map PoolSlot.face).Perm (q.slots.map PoolSlot.face) →
        Agree Schedule.Alike (Schedule.ofCircuit c p budget) (Schedule.ofCircuit c q budget)) ∧
    ∀ (placed : Circuit) (height width : Nat) (plan : Plan) (l : Layout),
      Layout.place placed height width plan = .ok l →
        ∀ (c : Circuit) (a : Artifacts) (m : Mapping), a.layout = some l → a.mapping = some m →
          m.pool = (Mapping.ofLayout l).pool →
            (∀ n, Proposal.evaluate c l = .ok n ↔ ∃ s,
              Stage.scheduling.run c a = .ok ({ a with schedule := some s }, .ok ()) ∧ s.cycles = n) ∧
            (∀ e, Proposal.evaluate c l = .error (.refused e) ↔ Stage.scheduling.run c a = .ok (a, .error e)) ∧
            ∀ f, Proposal.evaluate c l = .error (.fault f) ↔ Stage.scheduling.run c a = .error f := by
  refine ⟨fun c budget p q hp hq hfaces => Schedule.ofCircuit_alike ⟨hp, hq, hfaces⟩ c budget, ?_⟩
  intro placed height width plan l hplace c a m hlayout hmapping hpool
  obtain ⟨⟨grid, anchor, hfounded⟩, howned, -⟩ := Layout.founded_of_place hplace
  have hschedules := Schedule.ofCircuit_alike (Mapping.alike_ofLayout hfounded howned) c l.channels
  rw [Proposal.evaluate_eq, Stage.scheduling_run hlayout hmapping, hpool]
  generalize Schedule.ofCircuit c (.ofLayout l) l.channels = scored,
    Schedule.ofCircuit c (Mapping.ofLayout l).pool l.channels = made at hschedules ⊢
  cases hschedules with
  | error stop =>
      cases stop with
      | fault f => simp [Proposal.scoreOf, Artifacts.scheduled]
      | refused e => simp [Proposal.scoreOf, Artifacts.scheduled]
  | ok halike => simp [Proposal.scoreOf, Artifacts.scheduled, halike.cycles]

namespace ThreeCounters

def circuit : Circuit :=
  (Circuit.empty.append (.joint "cx" [.factory "T" 0, .register "a"] 1)).append
    (.joint "cx" [.factory "T" 1, .io "b"] 2)

def plan : Plan := ⟨[⟨"T", 1, 1, 3⟩, ⟨"T", 1, 1, 3⟩, ⟨"T", 1, 1, 3⟩], 1⟩

/-- Three factories, one of them held by a symbol of some other circuit. -/
def pool : Pool := ⟨[⟨0, "T", ⟨0, 0⟩, 3, 0, .free⟩, ⟨1, "T", ⟨0, 1⟩, 2, 5, .bound (.factory "T" 7)⟩,
  ⟨2, "T", ⟨0, 2⟩, 3, 1, .free⟩]⟩

/-- The same in another order and under other handles. -/
def shuffled : Pool := ⟨[⟨4, "T", ⟨1, 0⟩, 3, 1, .free⟩, ⟨9, "T", ⟨1, 1⟩, 3, 0, .free⟩,
  ⟨6, "T", ⟨1, 2⟩, 2, 5, .bound (.factory "T" 7)⟩]⟩

end ThreeCounters

theorem threeCounters_scored :
    (ThreeCounters.pool.Orderly ∧ ThreeCounters.shuffled.Orderly ∧
      Agree Schedule.Alike (Schedule.ofCircuit ThreeCounters.circuit ThreeCounters.pool 2)
        (Schedule.ofCircuit ThreeCounters.circuit ThreeCounters.shuffled 2)) ∧
    ∃ l, Layout.place ThreeCounters.circuit 7 7 ThreeCounters.plan = .ok l ∧
      (Mapping.ofLayout l).pool ≠ Pool.ofLayout l ∧ Proposal.evaluate ThreeCounters.circuit l = .ok 2 ∧
      ∃ s, Stage.scheduling.run ThreeCounters.circuit
        { layout := some l, mapping := some (Mapping.ofLayout l) } =
          .ok ({ layout := some l, mapping := some (Mapping.ofLayout l), schedule := some s }, .ok ()) ∧
        s.cycles = 2 := by
  obtain ⟨hshuffle, hscore⟩ := evaluate_eq_scheduled_length
  have horderly : ThreeCounters.pool.Orderly := by
    refine ⟨by decide, ?_⟩
    simp [ThreeCounters.pool, Occupancy.heldBy]
  have horderly' : ThreeCounters.shuffled.Orderly := by
    refine ⟨by decide, ?_⟩
    simp [ThreeCounters.shuffled, Occupancy.heldBy]
  refine ⟨⟨horderly, horderly', hshuffle _ 2 _ _ horderly horderly' (by decide)⟩, ?_⟩
  obtain ⟨l, hplace, hne, hcycles⟩ :=
    exists_ok_of_any (x := Layout.place ThreeCounters.circuit 7 7 ThreeCounters.plan)
      (p := fun l => (Mapping.ofLayout l).pool ≠ Pool.ofLayout l ∧
        ((Except.toOption (Proposal.evaluate ThreeCounters.circuit l)).any fun n => decide (n = 2)) = true)
      (by decide +kernel)
  obtain ⟨_, hevaluate, rfl⟩ := exists_ok_of_any hcycles
  obtain ⟨hscored, -⟩ := hscore _ _ _ _ l hplace ThreeCounters.circuit
    { layout := some l, mapping := some (Mapping.ofLayout l) } _ rfl rfl rfl
  exact ⟨l, hplace, hne, hevaluate, (hscored 2).1 hevaluate⟩

end SurfaceFabric
