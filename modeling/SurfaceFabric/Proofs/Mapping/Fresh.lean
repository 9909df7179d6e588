import SurfaceFabric.Proofs.Circuit.ProgramOrder
import SurfaceFabric.Proofs.Mapping
import SurfaceFabric.Proofs.Placement.Navigable
import SurfaceFabric.Proofs.SlotTree.Units

/-!
A fresh mapping of a placed layout. Its pool is filled by draining the slot tree template by template, which hands
out each placed factory once and leaves the register and I/O cells where they are. What the capacity check counted
on the grid is therefore what the tree counts, and a circuit that passed the check can be mapped.
-/

namespace SurfaceFabric

namespace Mapping

open SlotTree
open Layout (Founded Owned)

variable {l : Layout} {rank : Nat → Nat} {done : List String} {acc : List PoolSlot × SlotTree} {grid : Rect}
  {anchor : Cell}

def poolSlot? (l : Layout) (w : SlotKind × Slot) : Option PoolSlot :=
  match w.1 with
  | .factory template => w.2.handle.map fun h =>
      ⟨h, template, w.2.cell, ((l.unit? h).map FactoryUnit.cycles).getD 0, 0, .free⟩
  | _ => none

/-- A test that tells the two parts of a list apart. -/
theorem perm_of_filter {α : Type} {test : α → Bool} {all yes no : List α} (h : all.Perm (yes ++ no))
    (hyes : ∀ a ∈ yes, test a = true) (hno : ∀ a ∈ no, test a = false) : (all.filter test).Perm yes := by
  have hnone : no.filter test = [] := List.filter_eq_nil_iff.2 fun a ha => by simp [hno a ha]
  have hfilter := h.filter test
  rwa [List.filter_append, List.filter_eq_self.2 hyes, hnone, List.append_nil] at hfilter

/-- Where a drain stands after some templates: what has been handed out are factories, it is what the tree
lacks, and no factory of these templates is left. -/
structure Drained (l : Layout) (rank : Nat → Nat) (done : List String) (acc : List PoolSlot × SlotTree) :
    Prop where
  audited : acc.2.Audited rank
  handed : ∃ given, (build l).wares.Perm (given ++ acc.2.wares) ∧ acc.1 = given.filterMap (poolSlot? l) ∧
    ∀ w ∈ given, ∃ template, w.1 = .factory template
  gone : ∀ template ∈ done, ∀ w ∈ acc.2.wares, w.1 ≠ .factory template

theorem Drained.drainTemplate (h : Drained l rank done acc) (template : String) :
    Drained l rank (done ++ [template]) (Mapping.drainTemplate l acc template) := by
  obtain ⟨haudited, -, hperm⟩ := h.audited.drain (Nat.le_refl (acc.2.capacity (.factory template)))
  obtain ⟨given, hgiven, hslots, hkinds⟩ := h.handed
  generalize hdrain : acc.2.drain (.factory template) (acc.2.capacity (.factory template)) = result
    at haudited hperm
  have hresult : Mapping.drainTemplate l acc template = (acc.1 ++ (result.1.map fun slot =>
      (SlotKind.factory template, slot)).filterMap (poolSlot? l), result.2) := by
    rw [Mapping.drainTemplate, hdrain, List.filterMap_map]
    rfl
  rw [hresult]
  refine ⟨haudited, ⟨given ++ result.1.map fun slot => (.factory template, slot), ?_, ?_, ?_⟩, ?_⟩
  · rw [List.append_assoc]
    exact hgiven.trans (hperm.append_left given)
  · rw [hslots, List.filterMap_append]
  · intro w hw
    rcases List.mem_append.1 hw with hw | hw
    · exact hkinds w hw
    · obtain ⟨slot, -, rfl⟩ := List.mem_map.1 hw
      exact ⟨template, rfl⟩
  · intro other hother w hw
    rcases List.mem_append.1 hother with hother | hother
    · exact h.gone other hother w (hperm.mem_iff.2 (List.mem_append_right _ hw))
    · rw [List.mem_singleton.1 hother]
      refine h.audited.drain_all (.factory template) w ?_
      rw [hdrain]
      exact hw

theorem Drained.drainTemplates (h : Drained l rank done acc) (templates : List String) :
    Drained l rank (done ++ templates) (templates.foldl (Mapping.drainTemplate l) acc) := by
  induction templates generalizing done acc with
  | nil => simpa using h
  | cons template rest ih =>
      have hnext := ih (h.drainTemplate template)
      rwa [List.append_assoc] at hnext

theorem mem_templatesOf {u : FactoryUnit} (hu : u ∈ l.units) : u.template ∈ templatesOf l := by
  have hseen := FirstSeen.nil.foldl (l.units.map FactoryUnit.template)
  rw [List.foldl_map] at hseen
  exact (hseen.mem_iff _).2 (List.mem_map_of_mem hu)

/-- The pool slots of the factories on record, as in the order of placement. -/
theorem filterMap_unitWares (h : Founded l grid anchor) :
    (unitWares l).filterMap (poolSlot? l) = (Pool.ofLayout l).slots := by
  rw [unitWares, List.filterMap_filterMap]
  refine List.filterMap_congr fun u hu => ?_
  cases l.entrance? u.handle with
  | none => rfl
  | some e => simp [poolSlot?, h.unit?_eq hu]

/-- Draining hands out the factories and leaves the cells. -/
theorem exists_fresh (h : Founded l grid anchor) (howned : Owned l) :
    ∃ rank, (ofLayout l).tree.Audited rank ∧ (ofLayout l).pool.slots.Perm (Pool.ofLayout l).slots ∧
      (ofLayout l).tree.wares.Perm ((build l).wares.filter fun w => w.2.handle.isNone) := by
  obtain ⟨rank, haudited, hunits, hcells⟩ := exists_audited_build h howned
  have hstart : Drained l rank [] ([], build l) :=
    ⟨haudited, ⟨[], by rw [List.nil_append], rfl, by simp⟩, by simp⟩
  have hdrained : Drained l rank (templatesOf l) ((ofLayout l).pool.slots, (ofLayout l).tree) :=
    hstart.drainTemplates (templatesOf l)
  obtain ⟨given, hperm, hslots, hkinds⟩ := hdrained.handed
  dsimp only at hperm hslots
  -- only factories are asked for, and in the end none is left
  have hgiven : ∀ w ∈ given, w.2.handle.isSome = true := by
    intro w hw
    obtain ⟨template, hkind⟩ := hkinds w hw
    by_contra hnone
    obtain ⟨role, hrole⟩ := hcells w (hperm.mem_iff.2 (List.mem_append_left _ hw)) (by simpa using hnone)
    rw [hkind] at hrole
    cases hrole
  have hleft : ∀ w ∈ (ofLayout l).tree.wares, w.2.handle.isNone = true := by
    intro w hw
    by_contra hsome
    have hmem := hunits.mem_iff.1 (List.mem_filter.2
      ⟨hperm.mem_iff.2 (List.mem_append_right _ hw), by simpa [Option.isSome_iff_ne_none] using hsome⟩)
    obtain ⟨u, hu, e, -, rfl⟩ := mem_unitWares.1 hmem
    exact hdrained.gone u.template (mem_templatesOf hu) _ hw rfl
  refine ⟨rank, hdrained.audited, ?_, ?_⟩
  · rw [← filterMap_unitWares h, hslots]
    refine ((perm_of_filter hperm hgiven fun w hw => ?_).symm.trans hunits).filterMap _
    simpa using hleft w hw
  · refine (perm_of_filter (hperm.trans List.perm_append_comm) hleft fun w hw => ?_).symm
    simpa [Option.isSome_iff_ne_none] using hgiven w hw

/-- The tree counts the placed factories of each template. -/
theorem capacity_factory (h : Founded l grid anchor) (howned : Owned l) (template : String) :
    (build l).capacity (.factory template) = l.unitCount template := by
  obtain ⟨rank, haudited, hunits, hcells⟩ := exists_audited_build h howned
  have hwares : (build l).wares.filter (fun w => w.1 = .factory template) =
      ((build l).wares.filter fun w => w.2.handle.isSome).filter fun w => w.1 = .factory template := by
    rw [List.filter_filter]
    refine List.filter_congr fun w hw => ?_
    cases hhandle : w.2.handle with
    | some handle => simp
    | none =>
        obtain ⟨role, hrole⟩ := hcells w hw hhandle
        have hne : w.1 ≠ .factory template := by
          intro heq
          rw [heq] at hrole
          cases hrole
        simp [hne]
  rw [haudited.capacity_eq, hwares, (hunits.filter _).length_eq, Layout.unitCount, unitWares,
    ← List.countP_eq_length_filter, ← List.countP_eq_length_filter, List.countP_filterMap]
  refine List.countP_congr fun u hu => ?_
  obtain ⟨e, he, -⟩ := h.entrance hu
  simp [he]

theorem handle_eq_none_of_role? (h : Founded l grid anchor) (howned : Owned l) {w : SlotKind × Slot}
    (hw : w ∈ (build l).wares) {role : Role} (hrole : w.1.role? = some role) : w.2.handle = none := by
  obtain ⟨rank, -, hunits, -⟩ := exists_audited_build h howned
  by_contra hsome
  have hmem := hunits.mem_iff.1 (List.mem_filter.2 ⟨hw, by simpa [Option.isSome_iff_ne_none] using hsome⟩)
  obtain ⟨u, -, e, -, rfl⟩ := mem_unitWares.1 hmem
  cases hrole

/-- Draining the factories leaves the counts of cells as they were. -/
theorem capacity_ofLayout (h : Founded l grid anchor) (howned : Owned l) (kind : SlotKind) {role : Role}
    (hkind : kind.role? = some role) : (ofLayout l).tree.capacity kind = (build l).capacity kind := by
  obtain ⟨rank, haudited, -⟩ := exists_audited_build h howned
  obtain ⟨rank', haudited', -, hwares⟩ := exists_fresh h howned
  rw [haudited'.capacity_eq, (hwares.filter _).length_eq, List.filter_filter, haudited.capacity_eq]
  refine congrArg List.length (List.filter_congr fun w hw => ?_)
  by_cases heq : w.1 = kind
  · simp [heq, handle_eq_none_of_role? h howned hw (heq ▸ hkind)]
  · simp [heq]

/-- A fresh mapping of a layout that passed the capacity check takes the circuit: each of its symbols gets a cell,
and the pool stays as it is. -/
theorem exists_mapped_of_founded {c : Circuit} (h : Founded l grid anchor) (howned : Owned l)
    (hcheck : l.checkCapacity c = .ok ()) (hbuilt : c.Built) :
    ∃ m rank, (ofLayout l).mapCircuit c = (m, .ok ()) ∧ m.Mapped l.tiling rank ∧ m.pool = (ofLayout l).pool ∧
      m.cells.map Prod.fst = c.symbols := by
  obtain ⟨rank, -, hnodup, hoffers, hcapacity⟩ := exists_stocked_build h.served
  obtain ⟨rank', haudited, -, hwares⟩ := exists_fresh h howned
  obtain ⟨⟨registers, hregisters, hregister⟩, io, hio, hioCount⟩ := checkCapacity_eq_ok hcheck
  have hoffered : (ofLayout l).tree.offered.Perm (build l).offered := by
    rw [offered_eq, offered_eq]
    have hcells := hwares.filter fun w => w.2.handle.isNone
    rw [List.filter_filter] at hcells
    simp only [Bool.and_self] at hcells
    exact hcells.map _
  have hstart : Mapped (ofLayout l) l.tiling rank' := by
    refine ⟨haudited.stocked, ?_, fun p hp => absurd hp List.not_mem_nil, ?_⟩
    · show ((ofLayout l).tree.offered.map Prod.snd).Nodup
      exact (hoffered.map Prod.snd).nodup_iff.2 hnodup
    · intro p hp
      exact hoffers p (hoffered.mem_iff.1 hp)
  have hroom (kind : SlotKind) : (c.symbols.filter fun s => s.slotKind = kind).length ≤
      (ofLayout l).tree.capacity kind := by
    rw [length_filter_slotKind]
    cases kind with
    | register =>
        rw [capacity_ofLayout h howned .register rfl, hcapacity .register .register rfl,
          ← capacity_eq_ok hregisters]
        exact hregister
    | io =>
        rw [capacity_ofLayout h howned .io rfl, hcapacity .io .io rfl, ← capacity_eq_ok hio]
        exact hioCount
    | factory template => exact Nat.zero_le _
  obtain ⟨m, hall, hmapped, hpool, hsymbols⟩ := hstart.allocateAll hbuilt.nodup_symbols
    (fun s hs => ⟨Circuit.isFactory_of_mem_symbols hs, rfl⟩) hroom
  exact ⟨m, rank', hall, hmapped, hpool, hsymbols⟩

theorem exists_mapCircuit_of_founded {c : Circuit} (h : Founded l grid anchor) (howned : Owned l)
    (hcheck : l.checkCapacity c = .ok ()) (hbuilt : c.Built) :
    ∃ m, (ofLayout l).mapCircuit c = (m, .ok ()) :=
  have ⟨m, _, hmap, _⟩ := exists_mapped_of_founded h howned hcheck hbuilt
  ⟨m, hmap⟩

/-- The pool of a fresh mapping has each placed factory once. -/
theorem filter_pool (h : Founded l grid anchor) (howned : Owned l) {u : FactoryUnit} (hu : u ∈ l.units) :
    ∃ e, l.entrance? u.handle = some e ∧ (ofLayout l).pool.slots.filter (fun slot => slot.handle == u.handle) =
      [⟨u.handle, u.template, e, u.cycles, 0, .free⟩] := by
  obtain ⟨-, -, hpool, -⟩ := exists_fresh h howned
  obtain ⟨e, he, -⟩ := h.entrance hu
  refine ⟨e, he, List.perm_singleton.1 ((hpool.filter _).trans ?_)⟩
  have hnodup : (Pool.ofLayout l).slots.Nodup := List.Nodup.of_map _ (Pool.distinct_of_pairwise h.pairwise_handles)
  refine (List.perm_ext_iff_of_nodup (hnodup.filter _) (List.nodup_singleton _)).2 fun slot => ?_
  rw [List.mem_singleton, List.mem_filter, beq_iff_eq, Pool.ofLayout, List.mem_filterMap]
  constructor
  · rintro ⟨⟨v, hv, hslot⟩, hhandle⟩
    obtain ⟨e', he', rfl⟩ := Option.map_eq_some_iff.1 hslot
    obtain rfl := h.eq_of_handle_eq hv hu hhandle
    rw [Option.some.inj (he'.symm.trans he)]
  · rintro rfl
    exact ⟨⟨u, hu, by rw [he]; rfl⟩, rfl⟩

theorem length_pool (h : Founded l grid anchor) (howned : Owned l) :
    (ofLayout l).pool.slots.length = l.units.length := by
  obtain ⟨-, -, hpool, -⟩ := exists_fresh h howned
  rw [hpool.length_eq, Pool.ofLayout, List.length_filterMap_eq_countP, List.countP_eq_length]
  intro u hu
  obtain ⟨e, he, -⟩ := h.entrance hu
  simp [he]

end Mapping

/-- What the capacity check of a placement counts is what the slot tree has to give, a fresh mapping has each placed
factory once, and so it takes the circuit that the layout was placed for. -/
theorem place_capacities {c : Circuit} {height width : Nat} {plan : Plan} {l : Layout} (hbuilt : c.Built)
    (h : Layout.place c height width plan = .ok l) :
    l.capacity .register = .ok ((SlotTree.build l).capacity .register) ∧
    l.capacity .io = .ok ((SlotTree.build l).capacity .io) ∧
    (∀ template, (SlotTree.build l).capacity (.factory template) = l.unitCount template) ∧
    (∀ u ∈ l.units, ∃ e, l.entrance? u.handle = some e ∧
      (Mapping.ofLayout l).pool.slots.filter (fun slot => slot.handle == u.handle) =
        [⟨u.handle, u.template, e, u.cycles, 0, .free⟩]) ∧
    (Mapping.ofLayout l).pool.slots.length = l.units.length ∧
    ∃ m, (Mapping.ofLayout l).mapCircuit c = (m, .ok ()) := by
  obtain ⟨⟨grid, anchor, hfounded⟩, howned, hcheck⟩ := Layout.founded_of_place h
  obtain ⟨-, -, -, -, hcapacity⟩ := SlotTree.exists_stocked_build hfounded.served
  obtain ⟨⟨registers, hregisters, -⟩, io, hio, -⟩ := Mapping.checkCapacity_eq_ok hcheck
  refine ⟨?_, ?_, Mapping.capacity_factory hfounded howned, fun u hu => Mapping.filter_pool hfounded howned hu,
    Mapping.length_pool hfounded howned, Mapping.exists_mapCircuit_of_founded hfounded howned hcheck hbuilt⟩
  · rw [hregisters, Mapping.capacity_eq_ok hregisters, hcapacity .register .register rfl]
  · rw [hio, Mapping.capacity_eq_ok hio, hcapacity .io .io rfl]

theorem crowded_capacities : Crowded.circuit.Built ∧ ∃ l,
    Layout.place Crowded.circuit 6 6 Crowded.plan = .ok l ∧
      (SlotTree.build l).capacity (.factory "T") = 2 ∧ (SlotTree.build l).capacity (.factory "S") = 1 ∧
      ∃ m, (Mapping.ofLayout l).mapCircuit Crowded.circuit = (m, .ok ()) := by
  have hbuilt : Crowded.circuit.Built :=
    ((Circuit.Built.empty.add (Circuit.add_eq_ok_iff.2 ⟨by decide, rfl⟩)).add
      (Circuit.add_eq_ok_iff.2 ⟨by decide, rfl⟩)).add (Circuit.add_eq_ok_iff.2 ⟨by decide, rfl⟩)
  obtain ⟨l, hplace, ht, hs⟩ := exists_ok_of_any (x := Layout.place Crowded.circuit 6 6 Crowded.plan)
    (p := fun l => l.unitCount "T" = 2 ∧ l.unitCount "S" = 1) (by decide +kernel)
  obtain ⟨-, -, hfactory, -, -, hmap⟩ := place_capacities hbuilt hplace
  exact ⟨hbuilt, l, hplace, (hfactory "T").trans ht, (hfactory "S").trans hs, hmap⟩

end SurfaceFabric
