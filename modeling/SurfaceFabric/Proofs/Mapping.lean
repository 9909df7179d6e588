import SurfaceFabric.Mapping
import SurfaceFabric.Placement
import SurfaceFabric.Proofs.Circuit
import SurfaceFabric.Proofs.Pool.Protocol
import SurfaceFabric.Proofs.SlotTree.Allocate
import SurfaceFabric.Proofs.SlotTree.Build

/-!
Mapping a circuit onto a layout that has slots enough for it. Every symbol takes a cell that no other has
and that the tree no longer offers, so symbols never share a cell, and the counts at the root fall by one
for each symbol of a kind.
-/

namespace SurfaceFabric

variable {t : Tiling} {m : Mapping} {rank : Nat → Nat} {s : Symbol}

/-- A mapping that gives every operand of a circuit a slot of its own. -/
structure Mapping.Hosts (m : Mapping) (c : Circuit) (t : Tiling) : Prop where
  located : ∀ n g, c.gate? n = some g → ∀ s ∈ g.operands,
    ∃ cell role, m.cell? s = some cell ∧ t.roleAt? cell = some role ∧ role.IsSlot
  injective : ∀ s s' cell, m.cell? s = some cell → m.cell? s' = some cell → s = s'

theorem SlotTree.Hands.slots {kind : SlotKind} {role : Role} {slot : Slot} {k rest : SlotNodeKind}
    (h : SlotTree.Hands kind slot k rest) (hrole : kind.role? = some role) :
    k.slots = (kind, slot.cell) :: rest.slots := by
  cases h with
  | cell segment kind c left => rfl
  | factory segment handle template entrance => cases hrole

/-- A cell that a leaf hands out is all that the tree offers no more. -/
theorem SlotTree.Hands.offered_perm {t u : SlotTree} {kind : SlotKind} {role : Role} {slot : Slot}
    {k rest : SlotNodeKind} {leaf : Nat} (h : SlotTree.Hands kind slot k rest) (hrole : kind.role? = some role)
    (hk : t.kinds[leaf]? = some k) (hkinds : u.kinds = t.kinds.set leaf rest) :
    t.offered.Perm ((kind, slot.cell) :: u.offered) := by
  rw [SlotTree.offered, SlotTree.offered, hkinds]
  exact flatMap_set_perm hk (.of_eq (h.slots hrole))

theorem Symbol.role?_slotKind (h : s.isFactory = false) :
    ∃ role, s.slotKind.role? = some role ∧ role.IsSlot := by
  cases s with
  | register n => exact ⟨.register, rfl, .inl rfl⟩
  | io n => exact ⟨.io, rfl, .inr rfl⟩
  | factory template n => cases h

namespace Mapping

theorem cell?_eq_none_iff : m.cell? s = none ↔ s ∉ m.cells.map Prod.fst := by
  unfold cell?
  rw [Option.map_eq_none_iff, List.find?_eq_none]
  constructor
  · rintro h hmem
    obtain ⟨p, hp, rfl⟩ := List.mem_map.1 hmem
    exact h p hp (beq_self_eq_true _)
  · intro h p hp heq
    exact h (List.mem_map.2 ⟨p, hp, beq_iff_eq.1 heq⟩)

theorem mem_cells_of_cell? {c : Cell} (h : m.cell? s = some c) : (s, c) ∈ m.cells := by
  obtain ⟨p, hp, rfl⟩ := Option.map_eq_some_iff.1 h
  have hs : p.1 = s := by simpa using List.find?_some hp
  exact hs ▸ List.mem_of_find?_eq_some hp

theorem put_of_cell?_eq_none (h : m.cell? s = none) (c : Cell) :
    (m.put s c).cells = m.cells ++ [(s, c)] := by
  rw [cell?_eq_none_iff] at h
  have hkeep : m.cells.filter (fun p => p.1 != s) = m.cells := by
    rw [List.filter_eq_self]
    intro p hp
    rw [bne_iff_ne]
    rintro rfl
    exact h (List.mem_map_of_mem hp)
  rw [put, hkeep]

/-- Cells in use and cells on offer are all different, and all of them are slots. -/
structure Mapped (m : Mapping) (t : Tiling) (rank : Nat → Nat) : Prop where
  stocked : m.tree.Stocked rank
  distinct : (m.cells.map Prod.snd ++ m.tree.offered.map Prod.snd).Nodup
  used : ∀ p ∈ m.cells, ∃ role, t.roleAt? p.2 = some role ∧ role.IsSlot
  offers : ∀ p ∈ m.tree.offered, ∃ role, p.1.role? = some role ∧ t.roleAt? p.2 = some role

theorem Mapped.injective (h : m.Mapped t rank) {s' : Symbol} {c : Cell} (hs : m.cell? s = some c)
    (hs' : m.cell? s' = some c) : s = s' := by
  have hdistinct := (List.nodup_append.1 h.distinct).1
  have heq := List.inj_on_of_nodup_map hdistinct (mem_cells_of_cell? hs) (mem_cells_of_cell? hs') rfl
  exact congrArg Prod.fst heq

theorem Mapped.allocate (h : m.Mapped t rank) (hs : s.isFactory = false) (hnew : m.cell? s = none)
    (hcapacity : 0 < m.tree.capacity s.slotKind) :
    ∃ c m', m.allocate s = .ok (c, m') ∧ m'.Mapped t rank ∧ m'.cells = m.cells ++ [(s, c)] ∧
      m'.pool = m.pool ∧ ∀ kind,
        m'.tree.capacity kind = m.tree.capacity kind - if kind = s.slotKind then 1 else 0 := by
  obtain ⟨slot, u, leaf, k, rest, halloc, hstocked, hk, hands, hkinds, hcounts⟩ :=
    h.stocked.exists_alloc hcapacity
  obtain ⟨role, hrole, hslot⟩ := Symbol.role?_slotKind hs
  have hperm := hands.offered_perm hrole hk hkinds
  have hcells := put_of_cell?_eq_none (m := { m with tree := u }) hnew slot.cell
  refine ⟨slot.cell, { m with tree := u }.put s slot.cell, ?_, ⟨hstocked, ?_, ?_, ?_⟩, hcells, rfl, hcounts⟩
  · rw [Mapping.allocate, hnew, halloc]
    simp [hs]
  · rw [hcells, List.map_append, List.append_assoc]
    refine (List.Perm.nodup_iff ?_).1 h.distinct
    exact (hperm.map Prod.snd).append_left _
  · intro p hp
    rw [hcells] at hp
    rcases List.mem_append.1 hp with hp | hp
    · exact h.used p hp
    · obtain ⟨role', hrole', hat⟩ := h.offers _ (hperm.mem_iff.2 List.mem_cons_self)
      rw [List.mem_singleton.1 hp]
      exact ⟨role', hat, SlotKind.isSlot_of_role? hrole'⟩
  · intro p hp
    exact h.offers p (hperm.mem_iff.2 (List.mem_cons_of_mem _ hp))

theorem Mapped.allocateAll (h : m.Mapped t rank) {ss : List Symbol} (hnodup : ss.Nodup)
    (hss : ∀ s ∈ ss, s.isFactory = false ∧ m.cell? s = none)
    (hcapacity : ∀ kind, (ss.filter fun s => s.slotKind = kind).length ≤ m.tree.capacity kind) :
    ∃ m', m.allocateAll ss = (m', .ok ()) ∧ m'.Mapped t rank ∧ m'.pool = m.pool ∧
      m'.cells.map Prod.fst = m.cells.map Prod.fst ++ ss := by
  induction ss generalizing m with
  | nil => exact ⟨m, rfl, h, rfl, (List.append_nil _).symm⟩
  | cons s ss ih =>
      obtain ⟨hlater, hrest⟩ := List.nodup_cons.1 hnodup
      obtain ⟨hs, hnew⟩ := hss s List.mem_cons_self
      have hroom (kind : SlotKind) := hcapacity kind
      simp only [List.filter_cons, decide_eq_true_eq] at hroom
      have hfirst := hroom s.slotKind
      rw [if_pos rfl, List.length_cons] at hfirst
      obtain ⟨c, m', hallocate, hmapped, hcells, hpool, hcounts⟩ := h.allocate hs hnew (by omega)
      obtain ⟨m'', hall, hmapped', hpool', hkeys⟩ := ih hmapped hrest
        (by
          intro s' hs'
          obtain ⟨hplain, hfree⟩ := hss s' (List.mem_cons_of_mem _ hs')
          refine ⟨hplain, ?_⟩
          rw [cell?_eq_none_iff] at hfree ⊢
          rw [hcells, List.map_append, List.mem_append, not_or]
          refine ⟨hfree, ?_⟩
          rw [List.map_singleton, List.mem_singleton]
          rintro rfl
          exact hlater hs')
        (by
          intro kind
          rw [hcounts]
          have := hroom kind
          by_cases hkind : s.slotKind = kind
          · rw [if_pos hkind, List.length_cons] at this
            rw [if_pos hkind.symm]
            omega
          · rw [if_neg hkind] at this
            rw [if_neg (Ne.symm hkind)]
            exact this)
      refine ⟨m'', ?_, hmapped', hpool'.trans hpool, ?_⟩
      · rw [Mapping.allocateAll, hallocate]
        exact hall
      · rw [hkeys, hcells, List.map_append, List.append_assoc]
        rfl

theorem ofLayout_of_units_eq_nil {l : Layout} (h : l.units = []) :
    ofLayout l = ⟨.build l, [], ⟨[]⟩⟩ := by
  simp [ofLayout, templatesOf, h]

theorem capacity_eq_ok {l : Layout} {role : Role} {n : Nat} (h : l.capacity role = .ok n) :
    n = ((l.tiling.segments.filter fun s => s.role == role).map fun s => s.rect.cellCount).sum := by
  obtain ⟨-, -, hn⟩ := Tiling.totalArea_eq_ok_iff.1 h
  rwa [List.map_map] at hn

theorem checkCapacity_eq_ok {l : Layout} {c : Circuit} (h : l.checkCapacity c = .ok ()) :
    (∃ n, l.capacity .register = .ok n ∧ c.registerCount ≤ n) ∧
      ∃ n, l.capacity .io = .ok n ∧ c.ioCount ≤ n := by
  obtain ⟨registers, hregisters, h⟩ := bind_eq_ok_iff.1 h
  obtain ⟨hle, h⟩ := Outcome.guard_eq_ok_iff.1 h
  obtain ⟨io, hio, h⟩ := bind_eq_ok_iff.1 h
  refine ⟨⟨registers, Outcome.liftM_eq_ok_iff.1 hregisters, by omega⟩, io, Outcome.liftM_eq_ok_iff.1 hio, ?_⟩
  by_contra hlt
  rw [if_pos (by omega)] at h
  exact Outcome.refuse_ne_ok h

/-- Symbols of a kind, as the capacity check counts them. -/
theorem length_filter_slotKind (c : Circuit) (kind : SlotKind) :
    (c.symbols.filter fun s => s.slotKind = kind).length =
      match kind with
      | .register => c.registerCount
      | .io => c.ioCount
      | .factory _ => 0 := by
  cases kind with
  | register =>
      refine congrArg List.length (List.filter_congr fun s hs => ?_)
      have := Circuit.isFactory_of_mem_symbols hs
      cases s <;> simp_all [Symbol.slotKind, Symbol.isIo, Symbol.isFactory]
  | io =>
      refine congrArg List.length (List.filter_congr fun s hs => ?_)
      have := Circuit.isFactory_of_mem_symbols hs
      cases s <;> simp_all [Symbol.slotKind, Symbol.isIo, Symbol.isFactory]
  | factory template =>
      refine List.length_eq_zero_iff.2 (List.filter_eq_nil_iff.2 fun s hs => ?_)
      have := Circuit.isFactory_of_mem_symbols hs
      cases s <;> simp_all [Symbol.slotKind, Symbol.isFactory]

/-- A layout that is served and has slots enough takes every circuit without factories. -/
theorem exists_mapCircuit {l : Layout} {c : Circuit} {grid : Rect} {anchor : Cell}
    (hserved : l.tiling.Served grid anchor) (hunits : l.units = [])
    (hcheck : l.checkCapacity c = .ok ()) (hbuilt : c.Built) (hplain : c.Plain) :
    ∃ m, (ofLayout l).mapCircuit c = (m, .ok ()) ∧ m.Hosts c l.tiling := by
  obtain ⟨rank, hstocked, hnodup, hoffers, hcapacity⟩ := SlotTree.exists_stocked_build hserved
  obtain ⟨⟨registers, hregisters, hregister⟩, io, hio, hioCount⟩ := checkCapacity_eq_ok hcheck
  rw [ofLayout_of_units_eq_nil hunits]
  have hstart : Mapped ⟨.build l, [], ⟨[]⟩⟩ l.tiling rank :=
    ⟨hstocked, by simpa using hnodup, by simp, hoffers⟩
  have hroom (kind : SlotKind) : (c.symbols.filter fun s => s.slotKind = kind).length ≤
      (SlotTree.build l).capacity kind := by
    rw [length_filter_slotKind]
    cases kind with
    | register =>
        rw [hcapacity .register .register rfl, ← capacity_eq_ok hregisters]
        exact hregister
    | io =>
        rw [hcapacity .io .io rfl, ← capacity_eq_ok hio]
        exact hioCount
    | factory template => exact Nat.zero_le _
  obtain ⟨m, hall, hmapped, -, hkeys⟩ := hstart.allocateAll hbuilt.nodup_symbols
    (fun s hs => ⟨Circuit.isFactory_of_mem_symbols hs, rfl⟩) hroom
  refine ⟨m, hall, ?_, ?_⟩
  · intro n g hg s hs
    have hmem : s ∈ m.cells.map Prod.fst := by
      rw [hkeys]
      exact hbuilt.mem_symbols hg hs (hplain n g hg s hs)
    cases hcell : m.cell? s with
    | none => exact absurd hmem (cell?_eq_none_iff.1 hcell)
    | some cell =>
        obtain ⟨role, hrole, hslot⟩ := hmapped.used _ (mem_cells_of_cell? hcell)
        exact ⟨cell, role, rfl, hrole, hslot⟩
  · exact fun s s' cell => hmapped.injective

end Mapping

end SurfaceFabric
