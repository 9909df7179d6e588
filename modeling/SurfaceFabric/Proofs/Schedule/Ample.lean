import Mathlib.Data.List.Dedup
import SurfaceFabric.Proofs.Schedule.Budget
import SurfaceFabric.Proofs.Schedule.Lending

/-!
Circuits with a factory for every symbol. A simulation is stuck only where nothing runs and no gate that waits can
start. As all channels are free then, such a gate lacks a factory: all factories of the template are bound, each to
a symbol of its own and none to that of the gate. So the circuit has more symbols of the template than there are
factories.
-/

namespace SurfaceFabric

/-- The factory symbols of a template that a circuit has. -/
def Circuit.symbolsOf (c : Circuit) (template : String) : List Symbol :=
  ((c.nodes.flatMap fun node => node.gate.operands).filter fun s => s.template? == some template).dedup

theorem Circuit.mem_symbolsOf {c : Circuit} {template : String} {u : Symbol} :
    u ∈ c.symbolsOf template ↔ (∃ n, c.ActsOn n u) ∧ u.template? = some template := by
  rw [symbolsOf, List.mem_dedup, List.mem_filter, List.mem_flatMap, beq_iff_eq]
  refine and_congr_left fun _ => ?_
  constructor
  · rintro ⟨node, hnode, hu⟩
    obtain ⟨n, hn⟩ := List.mem_iff_getElem?.1 hnode
    exact ⟨n, node.gate, gate?_eq_some_iff.2 ⟨node, hn, rfl⟩, hu⟩
  · rintro ⟨n, g, hg, hu⟩
    obtain ⟨node, hnode, rfl⟩ := gate?_eq_some_iff.1 hg
    exact ⟨node, List.mem_of_getElem? hnode, hu⟩

namespace Pool

variable {p q : Pool} {template : String} {u : Symbol} {slot : PoolSlot}

def Serves (p : Pool) (c : Circuit) : Prop := ∀ template, (c.symbolsOf template).length ≤ p.stock template

instance (p : Pool) (c : Circuit) : Decidable (p.Serves c) :=
  decidable_of_iff (∀ u ∈ c.nodes.flatMap fun node => node.gate.operands, ∀ template ∈ u.template?,
      (c.symbolsOf template).length ≤ p.stock template) <| by
    constructor
    · intro h template
      cases hsymbols : c.symbolsOf template with
      | nil => exact Nat.zero_le _
      | cons u rest =>
          have hu : u ∈ c.symbolsOf template := hsymbols ▸ List.mem_cons_self
          rw [Circuit.symbolsOf, List.mem_dedup, List.mem_filter, beq_iff_eq] at hu
          exact hsymbols ▸ h u hu.1 template hu.2
    · exact fun h u _ template _ => h template

theorem stock_eq_of_labels (h : p.labels = q.labels) (template : String) : p.stock template = q.stock template := by
  have hstock (p : Pool) : p.stock template = p.labels.countP fun label => label.2 == template := by
    rw [labels, List.countP_map]
    rfl
  rw [hstock, hstock, h]

namespace Kept

theorem not_reserved (h : p.Kept []) (hslot : slot ∈ p.slots) : slot.occupancy ≠ .reserved u := by
  intro hreserved
  have hmem : (⟨slot.handle, u⟩ : Ticket) ∈ p.slots.flatMap PoolSlot.tickets :=
    List.mem_flatMap.2 ⟨slot, hslot, PoolSlot.mem_tickets.2 ⟨rfl, hreserved⟩⟩
  exact absurd (h.reserved.mem_iff.2 hmem) List.not_mem_nil

theorem exists_bound (h : p.Kept []) (hslot : slot ∈ p.slots) (hbusy : slot.occupancy ≠ .free) :
    ∃ u, slot.occupancy = .bound u := by
  cases hholder : slot.occupancy with
  | free => exact absurd hholder hbusy
  | reserved u => exact absurd hholder (h.not_reserved hslot)
  | bound u => exact ⟨u, rfl⟩

/-- Where no factory of a template is free, each has a symbol of its own. -/
theorem stock_le (h : p.Kept []) (hbusy : ∀ slot ∈ p.slots, isOffered template slot = false)
    {symbols : List Symbol} (hsymbols : ∀ u x, p.Lends u x → u.template? = some template → u ∈ symbols) :
    p.stock template ≤ symbols.length := by
  have hbound (a : PoolSlot) (ha : a ∈ p.slots.filter fun slot => slot.template == template) :
      a ∈ p.slots ∧ a.template = template ∧ ∃ u, a.occupancy = .bound u := by
    obtain ⟨ha, htemplate⟩ := List.mem_filter.1 ha
    refine ⟨ha, beq_iff_eq.1 htemplate, h.exists_bound ha fun hfree => ?_⟩
    simpa [isOffered, htemplate, hfree] using hbusy a ha
  have hnodup : ((p.slots.filter fun slot => slot.template == template).map PoolSlot.occupancy).Nodup := by
    refine List.Nodup.map_on ?_ ((List.Nodup.of_map _ h.distinct).filter _)
    intro a ha b hb heq
    obtain ⟨ha, -, u, hu⟩ := hbound a ha
    have hu' : b.occupancy = .bound u := heq.symm.trans hu
    exact h.sole a ha b (hbound b hb).1 u (by simp [hu, Occupancy.heldBy]) (by simp [hu', Occupancy.heldBy])
  have hsub : (p.slots.filter fun slot => slot.template == template).map PoolSlot.occupancy ⊆
      symbols.map .bound := by
    intro occupancy hmem
    obtain ⟨a, ha, rfl⟩ := List.mem_map.1 hmem
    obtain ⟨hslot, htemplate, u, hu⟩ := hbound a ha
    rw [hu]
    refine List.mem_map_of_mem (hsymbols u a.handle ⟨a, hslot, hu, rfl⟩ ?_)
    rw [← htemplate]
    exact h.template a hslot u (by simp [hu, Occupancy.heldBy])
  have hlength := (hnodup.subperm hsub).length_le
  rwa [List.length_map, List.length_map, ← List.countP_eq_length_filter] at hlength

end Kept

end Pool

namespace Job

variable {job : Job} {c : Circuit} {m : Moment} {pool p : Pool} {started : List Start} {done : List Nat} {n : Nat}
  {u : Symbol}

/-- In a pool that serves the circuit a symbol without a factory gets one. -/
theorem Lending.reserve?_ne_none (h : Lending c pool.labels p started done) (hserves : pool.Serves c)
    (hdraws : c.Draws n u) (hunbound : (p.binding? u).isSome = false) : p.reserve? u ≠ none := by
  intro hnone
  obtain ⟨g, -, -, hoperand⟩ := id hdraws
  have hfactory : u.isFactory = true := List.find?_some hoperand
  obtain ⟨template, htemplate⟩ : ∃ template, u.template? = some template :=
    Option.isSome_iff_exists.1 (u.template?_isSome.trans hfactory)
  have hfree (slot : PoolSlot) (hslot : slot ∈ p.slots) : slot.occupancy ≠ .bound u := by
    intro hbound
    rw [Pool.binding?_isSome_iff.2 ⟨slot, hslot, hbound⟩] at hunbound
    cases hunbound
  rcases Pool.reserve?_eq_none_iff.1 hnone template htemplate with hheld | hbusy
  · obtain ⟨slot, hslot, hheld⟩ := List.any_eq_true.1 hheld
    cases hholder : slot.occupancy with
    | free => simp [hholder, Occupancy.heldBy] at hheld
    | reserved v => exact h.kept.not_reserved hslot hholder
    | bound v =>
        obtain rfl : v = u := by simpa [hholder, Occupancy.heldBy] using hheld
        exact hfree slot hslot hholder
  · -- the other symbols of the template cannot have them all
    have hu : u ∈ c.symbolsOf template := Circuit.mem_symbolsOf.2 ⟨⟨n, hdraws.employs.actsOn⟩, htemplate⟩
    have hothers (v : Symbol) (x : Nat) (hlends : p.Lends v x) (hv : v.template? = some template) :
        v ∈ (c.symbolsOf template).erase u := by
      obtain ⟨k, hk⟩ := h.drawn v x hlends
      have hne : v ≠ u := by
        rintro rfl
        obtain ⟨slot, hslot, hbound, -⟩ := hlends
        exact hfree slot hslot hbound
      exact (List.mem_erase_of_ne hne).2 (Circuit.mem_symbolsOf.2 ⟨⟨k, hk.employs.actsOn⟩, hv⟩)
    have hstock := h.kept.stock_le hbusy hothers
    have hserved := hserves template
    rw [Pool.stock_eq_of_labels h.labels_eq, List.length_erase_of_mem hu] at hstock
    have hpos := List.length_pos_of_mem hu
    omega

end Job

namespace Schedule

variable {c : Circuit} {pool : Pool} {slacks : List Nat}

/-- A simulation with a channel and a factory for every symbol is not refused: where nothing runs some gate waits,
and an offer to it would be taken up. -/
theorem not_refused_of_serves (hbuilt : c.Built) (hdistinct : pool.Distinct)
    (hfree : ∀ slot ∈ pool.slots, slot.occupancy = .free) (hserves : pool.Serves c) {k : Nat} {d : Deadlock} :
    simulateCap c pool slacks (k + 1) ≠ .ok (.error d) := by
  intro h
  rw [simulateCap, Outcome.settle_eq_ok_error_iff, Job.simulate_eq_error_iff] at h
  obtain ⟨last, hreach, hidle, hopen, -, hrefused⟩ := Job.reaches_refusal_of_simulateFrom h
  have hstart := Job.timely_start ⟨c, slacks, k + 1⟩ pool
  have htracked := (hstart.reaches hbuilt hreach).tracked
  have hlending := (Job.Lending.start (c := c) hdistinct hfree).reaches hstart hbuilt hreach
  obtain ⟨n, hn⟩ := List.exists_mem_of_ne_nil _ (htracked.exists_waiting hbuilt hidle hopen)
  obtain ⟨g, hgate⟩ := Job.exists_gate_of_waiting hn
  obtain ⟨-, hnone⟩ | ⟨length, binding, next, -, -, heq⟩ := Job.offer_eq_ok hgate (hrefused n hn)
  · have hchannel : Job.hasChannel ⟨c, slacks, k + 1⟩ last g = true := by simp [Job.hasChannel, hidle]
    obtain ⟨u, hoperand, hreset, hunbound, hreserve⟩ := Job.exists_reserve?_eq_none (hnone hchannel)
    exact hlending.reserve?_ne_none hserves ⟨g, hgate, hreset, hoperand⟩ hunbound hreserve
  · rw [heq] at hidle
    simp [Job.begin] at hidle

/-- The layers of a circuit take a cycle each at least. -/
theorem Valid.depth_le {s : Schedule} {budget : Nat} (h : s.Valid c budget) (hbuilt : c.Built) :
    c.depth ≤ s.cycles := by
  apply max?_getD_le
  simp only [List.forall_mem_map]
  intro node hnode
  obtain ⟨n, hn⟩ := List.mem_iff_getElem?.1 hnode
  have hgate : c.gate? n = some node.gate := Circuit.gate?_eq_some_iff.2 ⟨node, hn, rfl⟩
  obtain ⟨start, hstart, hlayer⟩ := h.layered n node hn
  obtain ⟨start', finish, hstart', hfinish, hfits⟩ := h.timed n node.gate hgate
  obtain rfl := Option.some.inj (hstart.symm.trans hstart')
  have hlength := (hfits.bounds (hbuilt.cycles_pos hgate)).1
  have hlast := h.finish_le n finish hfinish
  simp only at hlength
  omega

end Schedule

/-- A circuit can be scheduled on any budget if there are as many factories of each template as it has symbols of it.
The schedule takes no fewer cycles than the circuit has layers, and no more than its gates one after the other. -/
theorem ofCircuit_ok_of_serves {c : Circuit} {pool : Pool} (hbuilt : c.Built) (hdistinct : pool.Distinct)
    (hfree : ∀ slot ∈ pool.slots, slot.occupancy = .free) (hserves : pool.Serves c)
    (hfits : c.totalCycles ≤ Word.top) (budget : Nat) :
    ∃ s, Schedule.ofCircuit c pool budget = .ok s ∧ c.depth ≤ s.cycles ∧ s.cycles ≤ c.totalCycles := by
  obtain ⟨slacks, hslacks⟩ := hbuilt.exists_slacks
  have hcap (k : Nat) : ∃ s, Schedule.simulateCap c pool slacks (k + 1) = .ok (.ok s) := by
    cases hresult : Schedule.simulateCap c pool slacks (k + 1) with
    | error f =>
        obtain ⟨-, htop⟩ := Schedule.overflow_of_simulateCap hbuilt hresult
        exact absurd hfits (Nat.not_le.2 htop)
    | ok result =>
        cases result with
        | error d => exact absurd hresult (Schedule.not_refused_of_serves hbuilt hdistinct hfree hserves)
        | ok s => exact ⟨s, rfl⟩
  obtain ⟨s, hs⟩ := Schedule.exists_ofCircuit_of_caps hslacks hcap budget
  refine ⟨s, hs, ?_, Schedule.cycles_le_totalCycles hbuilt hs⟩
  obtain ⟨slacks, channels, hchannels, hsimulate⟩ := Schedule.exists_simulate_of_ofCircuit hs
  obtain ⟨m, hreach, hsize, rfl⟩ := Job.reaches_of_simulate hsimulate
  have htimely := (Job.timely_start ⟨c, slacks, channels⟩ pool).reaches hbuilt hreach
  exact (htimely.valid hbuilt hsize hchannels).depth_le hbuilt

namespace SharedHandle

/-- Two symbols of one template. The second is put to use twice, with a reset in between. -/
def circuit : Circuit :=
  ((((Circuit.empty.append (.production (.factory "T" 0) 2)).append
    (.single "h" (.register "a") 1)).append
    (.joint "inject" [.register "a", .factory "T" 1] 1)).append (.resetOf (.factory "T" 1))).append
    (.production (.factory "T" 1) 2)

def pool : Pool := ⟨[⟨0, "T", ⟨0, 0⟩, 2, 0, .free⟩, ⟨1, "T", ⟨0, 2⟩, 4, 0, .free⟩]⟩

def doubled : Pool :=
  ⟨[⟨0, "T", ⟨0, 0⟩, 2, 0, .free⟩, ⟨0, "T", ⟨0, 1⟩, 2, 0, .free⟩, ⟨1, "T", ⟨0, 2⟩, 4, 0, .free⟩]⟩

theorem built_circuit : circuit.Built :=
  ((((Circuit.Built.empty.extend (by decide)).extend (by decide)).extend (by decide)).extend (by decide)).extend
    (by decide)

end SharedHandle

theorem sharedHandle_ok_without_sharing : SharedHandle.circuit.Built ∧ SharedHandle.pool.Distinct ∧
    (∀ slot ∈ SharedHandle.pool.slots, slot.occupancy = .free) ∧
    SharedHandle.pool.Serves SharedHandle.circuit ∧ SharedHandle.circuit.totalCycles ≤ Word.top ∧
    ∃ s, Schedule.ofCircuit SharedHandle.circuit SharedHandle.pool 3 = .ok s ∧ 4 ≤ s.cycles ∧ s.cycles ≤ 7 :=
  ⟨SharedHandle.built_circuit, by decide, by decide, by decide +kernel, by decide,
    ofCircuit_ok_of_serves SharedHandle.built_circuit (by decide) (by decide) (by decide +kernel) (by decide) 3⟩

/-- With two slots of one handle the second stays reserved for good once it is taken, as its ticket binds the first.
A symbol that was given back then finds itself held, and its gate waits for ever. -/
theorem sharedHandle_deadlocks : SharedHandle.circuit.Built ∧
    (∀ slot ∈ SharedHandle.doubled.slots, slot.occupancy = .free) ∧
    SharedHandle.doubled.Serves SharedHandle.circuit ∧ SharedHandle.circuit.totalCycles ≤ Word.top ∧
    Schedule.ofCircuit SharedHandle.circuit SharedHandle.doubled 1 = .error (.refused ⟨3, 1⟩) := by
  refine ⟨SharedHandle.built_circuit, by decide, by decide +kernel, by decide, ?_⟩
  apply Outcome.settle_eq_ok_error_iff.1
  decide +kernel

end SurfaceFabric
