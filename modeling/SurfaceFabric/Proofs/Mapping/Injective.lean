import SurfaceFabric.Proofs.Mapping
import SurfaceFabric.Proofs.SlotTree.Ledger

/-!
Mappings under any calls. Symbols are given cells, one at a time or a circuit's together, and are put on cells that
the caller names. A cell that a symbol has is not on offer, whether the tree handed it out or it was taken, and a cell
that a symbol gives up does not come back. So as long as no symbol is put on a cell that another one has, no two
symbols ever share a cell.
-/

namespace SurfaceFabric

inductive MappingCall
  | allocate (s : Symbol)
  | mapCircuit (c : Circuit)
  | assign (s : Symbol) (cell : Cell)

def MappingCall.Assigns (q : MappingCall) (s : Symbol) : Prop := ∃ cell, q = .assign s cell

namespace SlotTree

variable {t u : SlotTree} {rank : Nat → Nat}

theorem offered_subset {w : SlotKind × Slot} (h : t.wares.Perm (w :: u.wares)) : u.offered ⊆ t.offered := by
  rw [offered_eq, offered_eq]
  intro p hp
  obtain ⟨w', hw', rfl⟩ := List.mem_map.1 hp
  obtain ⟨hmem, hcell⟩ := List.mem_filter.1 hw'
  exact List.mem_map_of_mem (List.mem_filter.2 ⟨h.mem_iff.2 (List.mem_cons_of_mem _ hmem), hcell⟩)

theorem Solvent.drain (h : Solvent t rank) (kind : SlotKind) (n : Nat) :
    Solvent (t.drain kind n).2 rank ∧ (t.drain kind n).2.offered ⊆ t.offered := by
  induction n generalizing t with
  | zero => exact ⟨h, fun _ hp => hp⟩
  | succ n ih =>
      rw [SlotTree.drain]
      split
      · exact ⟨h, fun _ hp => hp⟩
      · next slot u halloc =>
          obtain ⟨_, -, hbalanced⟩ := h.balanced_alloc halloc
          obtain ⟨hsolvent, hsub⟩ := ih (hbalanced.solvent h)
          exact ⟨hsolvent, fun _ hp => offered_subset (h.wares_alloc halloc) (hsub hp)⟩

/-- The cell that a symbol is handed was on offer for its kind, and is all that is on offer no more. -/
theorem Solvent.offered_alloc (h : Solvent t rank) {s : Symbol} (hs : s.isFactory = false) {slot : Slot}
    (halloc : t.alloc? s.slotKind = some (slot, u)) : t.offered.Perm ((s.slotKind, slot.cell) :: u.offered) := by
  obtain ⟨role, hrole, -⟩ := Symbol.role?_slotKind hs
  obtain ⟨_, leaf, k, rest, -, -, -, hk, hands, hkinds, -⟩ := h.alloc halloc
  exact hands.offered_perm hrole hk hkinds

end SlotTree

namespace Mapping

variable {m m' : Mapping} {t : Tiling} {l : Layout} {rank : Nat → Nat} {s s' : Symbol} {c : Cell}
  {e : CompileError} {q : MappingCall} {ss : List Symbol}

/-- The mapping after a call, whether or not the call succeeds. -/
def call (m : Mapping) : MappingCall → Mapping
  | .allocate s => (m.allocateAll [s]).1
  | .mapCircuit c => (m.mapCircuit c).1
  | .assign s cell => m.assign s cell

def callAll (m : Mapping) (calls : List MappingCall) : Mapping := calls.foldl call m

/-- No symbol is put on a cell that another register or I/O symbol has. -/
def Admits (m : Mapping) : MappingCall → Prop
  | .assign s cell => ∀ s', s'.isFactory = false → s' ≠ s → m.coordinate? s' ≠ some cell
  | _ => True

def AdmitsAll (m : Mapping) : List MappingCall → Prop
  | [] => True
  | q :: rest => m.Admits q ∧ (m.call q).AdmitsAll rest

theorem coordinate?_eq (hs : s.isFactory = false) : m.coordinate? s = m.cell? s := by
  rw [coordinate?, if_neg (by simp [hs])]

theorem cell?_put (m : Mapping) (s s' : Symbol) (c : Cell) :
    (m.put s c).cell? s' = if s' = s then some c else m.cell? s' := by
  unfold cell? put
  rw [List.find?_append]
  by_cases h : s' = s
  · have hnone : (m.cells.filter fun p => p.1 != s).find? (fun p => p.1 == s') = none := by
      simp [List.find?_eq_none, h]
    rw [hnone, if_pos h]
    simp [h]
  · have hkeep : (m.cells.filter fun p => p.1 != s).find? (fun p => p.1 == s') =
        m.cells.find? fun p => p.1 == s' := by
      rw [List.find?_filter]
      congr 1
      funext p
      by_cases hp : p.1 = s' <;> simp [hp, h]
    rw [hkeep, if_neg h]
    simp [Ne.symm h]

section Allocate

/-- A symbol that gets a cell has it already, or takes it from the tree. -/
theorem allocate_eq_ok (h : m.allocate s = .ok (c, m')) : (m.cell? s = some c ∧ m' = m) ∨
    (m.cell? s = none ∧ s.isFactory = false ∧ ∃ slot u, m.tree.alloc? s.slotKind = some (slot, u) ∧
      c = slot.cell ∧ m' = { m with tree := u }.put s slot.cell) := by
  unfold Mapping.allocate at h
  split at h
  · next hcell =>
      cases h
      exact .inl ⟨hcell, rfl⟩
  · next hnew =>
      split at h
      · cases h
      · next hs =>
          split at h
          · cases h
          · next slot u halloc =>
              cases h
              exact .inr ⟨hnew, by simpa using hs, slot, u, halloc, rfl, rfl⟩

theorem allocate_eq_error (h : m.allocate s = .error e) : m.cell? s = none ∧
    ((s.isFactory = true ∧ e = .unmapped s) ∨
      (s.isFactory = false ∧ m.tree.alloc? s.slotKind = none ∧ e = .outOfSlots s.slotKind)) := by
  unfold Mapping.allocate at h
  split at h
  · cases h
  · next hnew =>
      refine ⟨hnew, ?_⟩
      split at h
      · next hs =>
          cases h
          exact .inl ⟨hs, rfl⟩
      · next hs =>
          split at h
          · next hnone =>
              cases h
              exact .inr ⟨by simpa using hs, hnone, rfl⟩
          · cases h

theorem cell?_of_allocate (h : m.allocate s = .ok (c, m')) : m'.cell? s = some c := by
  rcases allocate_eq_ok h with ⟨hcell, rfl⟩ | ⟨-, -, slot, u, -, rfl, rfl⟩
  · exact hcell
  · rw [cell?_put, if_pos rfl]

theorem kept_of_allocate (h : m.allocate s = .ok (c, m')) {cell : Cell} (hcell : m.cell? s' = some cell) :
    m'.cell? s' = some cell := by
  rcases allocate_eq_ok h with ⟨-, rfl⟩ | ⟨hnew, -, slot, u, -, -, rfl⟩
  · exact hcell
  · have hne : s' ≠ s := by
      rintro rfl
      rw [hnew] at hcell
      cases hcell
    rw [cell?_put, if_neg hne]
    exact hcell

theorem pool_of_allocate (h : m.allocate s = .ok (c, m')) : m'.pool = m.pool := by
  rcases allocate_eq_ok h with ⟨-, rfl⟩ | ⟨-, -, slot, u, -, -, rfl⟩ <;> rfl

/-- What allocations keep, a run of them keeps, wherever it stops. -/
theorem allocateAll_induct {P : Mapping → Prop} (h : P m)
    (hstep : ∀ m s c m', P m → m.allocate s = .ok (c, m') → P m') : P (m.allocateAll ss).1 := by
  induction ss generalizing m with
  | nil => exact h
  | cons s ss ih =>
      rw [Mapping.allocateAll]
      split
      · next c m' hallocate => exact ih (hstep m s c m' h hallocate)
      · exact h

theorem kept_of_allocateAll (ss : List Symbol) (h : m.cell? s = some c) :
    (m.allocateAll ss).1.cell? s = some c :=
  allocateAll_induct (P := fun m => m.cell? s = some c) h fun _ _ _ _ hcell hallocate =>
    kept_of_allocate hallocate hcell

/-- A run of allocations that succeeds has a cell for every symbol. -/
theorem exists_cell?_of_allocateAll (h : (m.allocateAll ss).2 = .ok ()) :
    ∀ s ∈ ss, ∃ c, (m.allocateAll ss).1.cell? s = some c := by
  induction ss generalizing m with
  | nil => exact fun s hs => absurd hs List.not_mem_nil
  | cons s ss ih =>
      cases hallocate : m.allocate s with
      | error e =>
          rw [Mapping.allocateAll, hallocate] at h
          cases h
      | ok result =>
          obtain ⟨c, m'⟩ := result
          have hrun : m.allocateAll (s :: ss) = m'.allocateAll ss := by rw [Mapping.allocateAll, hallocate]
          rw [hrun] at h ⊢
          exact List.forall_mem_cons.2 ⟨⟨c, kept_of_allocateAll ss (cell?_of_allocate hallocate)⟩, ih h⟩

/-- A run of allocations that fails ends where a symbol could not have a cell. -/
theorem exists_error_of_allocateAll (h : (m.allocateAll ss).2 = .error e) :
    ∃ s ∈ ss, (m.allocateAll ss).1.allocate s = .error e := by
  induction ss generalizing m with
  | nil => cases h
  | cons s ss ih =>
      cases hallocate : m.allocate s with
      | error e' =>
          rw [Mapping.allocateAll, hallocate] at h ⊢
          cases h
          exact ⟨s, List.mem_cons_self, hallocate⟩
      | ok result =>
          obtain ⟨c, m'⟩ := result
          have hrun : m.allocateAll (s :: ss) = m'.allocateAll ss := by rw [Mapping.allocateAll, hallocate]
          rw [hrun] at h ⊢
          obtain ⟨s', hs', herror⟩ := ih h
          exact ⟨s', List.mem_cons_of_mem _ hs', herror⟩

end Allocate

/-- A call that is no assignment is a run of allocations. -/
theorem call_cases (m : Mapping) (q : MappingCall) :
    (∃ ss, m.call q = (m.allocateAll ss).1) ∨ ∃ s cell, q = .assign s cell := by
  cases q with
  | allocate s => exact .inl ⟨[s], rfl⟩
  | mapCircuit c => exact .inl ⟨c.symbols, rfl⟩
  | assign s cell => exact .inr ⟨s, cell, rfl⟩

theorem cell?_assign (m : Mapping) (s s' : Symbol) (c : Cell) :
    (m.assign s c).cell? s' = if s' = s then some c else m.cell? s' :=
  cell?_put ..

/-- A symbol keeps its cell under all calls that do not put it on another. -/
theorem kept_of_call (hq : ¬q.Assigns s) (h : m.cell? s = some c) : (m.call q).cell? s = some c := by
  rcases call_cases m q with ⟨ss, hcall⟩ | ⟨s', cell, rfl⟩
  · rw [hcall]
    exact kept_of_allocateAll ss h
  · have hne : s ≠ s' := by
      rintro rfl
      exact hq ⟨cell, rfl⟩
    rw [call, cell?_assign, if_neg hne, h]

theorem pool_call (m : Mapping) (q : MappingCall) : (m.call q).pool = m.pool := by
  rcases call_cases m q with ⟨ss, hcall⟩ | ⟨s, cell, rfl⟩
  · rw [hcall]
    exact allocateAll_induct (P := fun m' => m'.pool = m.pool) rfl fun _ _ _ _ hpool hallocate =>
      (pool_of_allocate hallocate).trans hpool
  · rfl

/-- Register and I/O symbols have cells of their own, no symbol's cell is on offer, and every cell on offer is of the
role its kind asks for. -/
structure Lodged (m : Mapping) (t : Tiling) (rank : Nat → Nat) : Prop where
  solvent : m.tree.Solvent rank
  offers : ∀ p ∈ m.tree.offered, ∃ role, p.1.role? = some role ∧ t.roleAt? p.2 = some role
  apart : ∀ s c, m.cell? s = some c → c ∉ m.tree.offered.map Prod.snd
  injective : ∀ s s' c, s.isFactory = false → s'.isFactory = false → m.cell? s = some c → m.cell? s' = some c →
    s = s'

namespace Lodged

theorem ofLayout (h : l.tiling.WellTiled) : ∃ rank, (ofLayout l).Lodged l.tiling rank := by
  obtain ⟨rank, hsolvent⟩ := SlotTree.exists_solvent_build h
  have htree : (Mapping.ofLayout l).tree.Solvent rank ∧
      (Mapping.ofLayout l).tree.offered ⊆ (SlotTree.build l).offered :=
    List.foldlRecOn (motive := fun acc : List PoolSlot × SlotTree =>
        acc.2.Solvent rank ∧ acc.2.offered ⊆ (SlotTree.build l).offered) _ _
      ⟨hsolvent, fun _ hp => hp⟩ fun acc hacc template _ =>
        have hdrain := hacc.1.drain (.factory template) (acc.2.capacity (.factory template))
        ⟨hdrain.1, fun _ hp => hacc.2 (hdrain.2 hp)⟩
  refine ⟨rank, htree.1, fun p hp => ?_, fun s c hc => ?_, fun s s' c _ _ hc => ?_⟩
  · exact SlotTree.roleAt?_of_mem_offered_build h (htree.2 hp)
  · cases hc
  · cases hc

/-- A symbol may move to a cell that no other symbol has and that the tree does not offer any more. -/
theorem put (h : m.Lodged t rank) {u : SlotTree} (hu : u.Solvent rank) (hsub : u.offered ⊆ m.tree.offered)
    (hout : c ∉ u.offered.map Prod.snd) (hfree : ∀ s', s'.isFactory = false → s' ≠ s → m.cell? s' ≠ some c) :
    ({ m with tree := u }.put s c).Lodged t rank where
  solvent := hu
  offers p hp := h.offers p (hsub hp)
  apart s' c' hc' := by
    rw [cell?_put] at hc'
    split at hc'
    · cases hc'
      exact hout
    · exact fun hmem => h.apart s' c' hc' (List.map_subset _ hsub hmem)
  injective s₁ s₂ c' hs₁ hs₂ hc₁ hc₂ := by
    rw [cell?_put] at hc₁ hc₂
    split at hc₁ <;> split at hc₂
    · next heq₁ heq₂ => rw [heq₁, heq₂]
    · next hne =>
        cases hc₁
        exact absurd hc₂ (hfree s₂ hs₂ hne)
    · next hne _ =>
        cases hc₂
        exact absurd hc₁ (hfree s₁ hs₁ hne)
    · exact h.injective s₁ s₂ c' hs₁ hs₂ hc₁ hc₂

theorem allocate (h : m.Lodged t rank) (hallocate : m.allocate s = .ok (c, m')) : m'.Lodged t rank := by
  rcases allocate_eq_ok hallocate with ⟨-, rfl⟩ | ⟨-, hs, slot, u, halloc, -, rfl⟩
  · exact h
  · have hperm := h.solvent.offered_alloc hs halloc
    obtain ⟨_, -, hbalanced⟩ := h.solvent.balanced_alloc halloc
    have hnodup : (slot.cell :: u.offered.map Prod.snd).Nodup :=
      (hperm.map Prod.snd).nodup_iff.1 h.solvent.distinct
    have hmem : slot.cell ∈ m.tree.offered.map Prod.snd :=
      (hperm.map Prod.snd).mem_iff.2 List.mem_cons_self
    refine h.put (hbalanced.solvent h.solvent) ?_ (List.nodup_cons.1 hnodup).1 fun s' _ _ hcell => ?_
    · exact fun p hp => hperm.mem_iff.2 (List.mem_cons_of_mem _ hp)
    · exact h.apart s' _ hcell hmem

/-- The cell may be on offer, have been given up, or never have been a slot. -/
theorem assign (h : m.Lodged t rank) (hfree : ∀ s', s'.isFactory = false → s' ≠ s → m.cell? s' ≠ some c) :
    (m.assign s c).Lodged t rank := by
  rw [Mapping.assign]
  cases htake : m.tree.take? c with
  | none =>
      have hout : c ∉ m.tree.offered.map Prod.snd := by
        rw [← h.solvent.accounted.take_iff, htake]
        simp
      exact h.put h.solvent (fun _ hp => hp) hout hfree
  | some u =>
      obtain ⟨_, hperm⟩ := h.solvent.wares_take htake
      obtain ⟨_, _, _, _, -, -, -, hout⟩ := h.solvent.accounted.take c u htake
      exact h.put ((h.solvent.balanced_take htake).solvent h.solvent) (SlotTree.offered_subset hperm) hout hfree

theorem call (h : m.Lodged t rank) (hq : m.Admits q) : (m.call q).Lodged t rank := by
  rcases call_cases m q with ⟨ss, hcall⟩ | ⟨s, cell, rfl⟩
  · rw [hcall]
    exact allocateAll_induct (P := fun m => m.Lodged t rank) h fun _ _ _ _ hm hallocate => hm.allocate hallocate
  · refine h.assign fun s' hs' hne => ?_
    rw [← coordinate?_eq hs']
    exact hq s' hs' hne

theorem callAll (h : m.Lodged t rank) {calls : List MappingCall} (hcalls : m.AdmitsAll calls) :
    (m.callAll calls).Lodged t rank := by
  induction calls generalizing m with
  | nil => exact h
  | cons q rest ih => exact ih (h.call hcalls.1) hcalls.2

/-- A symbol that gets a cell in a run of allocations gets one of its own kind. -/
theorem roleAt?_of_allocateAll (h : m.Lodged t rank) (hnew : m.cell? s = none)
    (hc : (m.allocateAll ss).1.cell? s = some c) : t.roleAt? c = s.slotKind.role? := by
  have hrun : (m.allocateAll ss).1.Lodged t rank ∧
      ∀ c, (m.allocateAll ss).1.cell? s = some c → t.roleAt? c = s.slotKind.role? := by
    refine allocateAll_induct (P := fun m => m.Lodged t rank ∧ ∀ c, m.cell? s = some c →
      t.roleAt? c = s.slotKind.role?) ⟨h, fun c hc => ?_⟩ ?_
    · rw [hnew] at hc
      cases hc
    · rintro m s' c m' ⟨hm, hrole⟩ hallocate
      refine ⟨hm.allocate hallocate, fun cell hcell => ?_⟩
      rcases allocate_eq_ok hallocate with ⟨-, rfl⟩ | ⟨-, hs', slot, u, halloc, -, rfl⟩
      · exact hrole cell hcell
      · rw [cell?_put] at hcell
        split at hcell
        · next heq =>
            cases hcell
            have hperm := hm.solvent.offered_alloc hs' halloc
            obtain ⟨role, hkind, hat⟩ := hm.offers _ (hperm.mem_iff.2 List.mem_cons_self)
            rw [hat, heq, hkind]
        · exact hrole cell hcell
  exact hrun.2 c hc

end Lodged

/-- A mapping in which register and I/O symbols have cells of their own, and which answers every call as it should. -/
structure Sound (m : Mapping) (t : Tiling) : Prop where
  injective : ∀ s s' c, s.isFactory = false → s'.isFactory = false → m.coordinate? s = some c →
    m.coordinate? s' = some c → s = s'
  /-- A symbol that gets a cell without being put on it gets one of its own kind. -/
  given : ∀ q s c, ¬q.Assigns s → s.isFactory = false → m.coordinate? s = none →
    (m.call q).coordinate? s = some c → t.roleAt? c = s.slotKind.role?
  kept : ∀ q s c, ¬q.Assigns s → m.coordinate? s = some c → (m.call q).coordinate? s = some c
  assigned : ∀ s c, s.isFactory = false → (m.call (.assign s c)).coordinate? s = some c
  allocated : ∀ s c m', m.allocate s = .ok (c, m') → m.call (.allocate s) = m' ∧ m'.cell? s = some c
  /-- Only a factory symbol, or one of a kind with no slot left, is refused a cell, and nothing changes. -/
  refused : ∀ s e, m.allocate s = .error e → m.call (.allocate s) = m ∧ m.cell? s = none ∧
    ((s.isFactory = true ∧ e = .unmapped s) ∨
      (s.isFactory = false ∧ m.tree.capacity s.slotKind = 0 ∧ e = .outOfSlots s.slotKind))
  mapped : ∀ c, (m.mapCircuit c).2 = .ok () → ∀ s ∈ c.symbols, ∃ cell,
    (m.call (.mapCircuit c)).coordinate? s = some cell
  /-- What a circuit's symbols got up to the first that is refused stays. -/
  stopped : ∀ c e, (m.mapCircuit c).2 = .error e → ∃ s ∈ c.symbols,
    (m.call (.mapCircuit c)).allocate s = .error e

theorem Lodged.sound (h : m.Lodged t rank) : m.Sound t where
  injective s s' c hs hs' hc hc' := by
    rw [coordinate?_eq hs] at hc
    rw [coordinate?_eq hs'] at hc'
    exact h.injective s s' c hs hs' hc hc'
  given q s c hq hs hnew hc := by
    rw [coordinate?_eq hs] at hnew hc
    rcases call_cases m q with ⟨ss, hcall⟩ | ⟨s', cell, rfl⟩
    · exact h.roleAt?_of_allocateAll hnew (hcall ▸ hc)
    · have hne : s ≠ s' := by
        rintro rfl
        exact hq ⟨cell, rfl⟩
      rw [Mapping.call, cell?_assign, if_neg hne, hnew] at hc
      cases hc
  kept q s c hq hc := by
    cases hs : s.isFactory with
    | true =>
        rw [coordinate?, if_pos hs] at hc ⊢
        rwa [pool_call]
    | false =>
        rw [coordinate?_eq hs] at hc ⊢
        exact kept_of_call hq hc
  assigned s c hs := by
    rw [coordinate?_eq hs, Mapping.call, cell?_assign, if_pos rfl]
  allocated s c m' hallocate := by
    refine ⟨?_, cell?_of_allocate hallocate⟩
    rw [Mapping.call, Mapping.allocateAll, hallocate]
    rfl
  refused s e herror := by
    obtain ⟨hnew, hcause⟩ := allocate_eq_error herror
    refine ⟨?_, hnew, ?_⟩
    · rw [Mapping.call, Mapping.allocateAll, herror]
    · rcases hcause with hfactory | ⟨hs, hnone, he⟩
      · exact .inl hfactory
      · exact .inr ⟨hs, h.solvent.capacity_eq_zero hnone, he⟩
  mapped c hok s hs := by
    obtain ⟨cell, hcell⟩ := exists_cell?_of_allocateAll hok s hs
    exact ⟨cell, (coordinate?_eq (Circuit.isFactory_of_mem_symbols hs)).trans hcell⟩
  stopped _ _ herror := exists_error_of_allocateAll herror

/-- Whatever is asked of a fresh mapping of any layout, as long as no symbol is put on a cell that another has,
symbols never share a cell, a cell that is handed out is of the symbol's kind, a symbol that has a cell keeps it, and
a refusal changes nothing. -/
theorem mapping_sound_after_calls {height width : Nat} {ops : List Tiling.Operation} {calls : List MappingCall}
    (hreach : (Tiling.ofSize height width).performAll ops = .ok l.tiling)
    (hcalls : (ofLayout l).AdmitsAll calls) : ((ofLayout l).callAll calls).Sound l.tiling := by
  have hwell := (Tiling.wellTiled_ofSize height width).changes (Tiling.changes_of_performAll hreach)
  obtain ⟨rank, hlodged⟩ := Lodged.ofLayout hwell
  exact (hlodged.callAll hcalls).sound

theorem admits_assign (h : ∀ p ∈ m.cells, p.1 ≠ s → p.2 ≠ c) : m.Admits (.assign s c) := by
  intro s' hs' hne hc
  rw [coordinate?_eq hs'] at hc
  exact h _ (mem_cells_of_cell? hc) hne rfl

namespace Moved

def circuit : Circuit := Circuit.empty.append (.joint "cx" [.register "a", .register "b", .io "out"] 2)

/-- A symbol moves off a register cell onto routing; the cell it had is not given to another. -/
def calls : List MappingCall :=
  [.assign (.register "a") ⟨0, 2⟩, .mapCircuit circuit, .assign (.register "a") ⟨1, 0⟩, .allocate (.register "c")]

end Moved

theorem moved_sound :
    (Tiling.ofSize 2 4).performAll SlotTree.Counter.ops = .ok SlotTree.Counter.layout.tiling ∧
    (ofLayout SlotTree.Counter.layout).AdmitsAll Moved.calls ∧
    ((ofLayout SlotTree.Counter.layout).callAll Moved.calls).cells =
      [(.register "b", ⟨0, 1⟩), (.io "out", ⟨0, 3⟩), (.register "a", ⟨1, 0⟩)] ∧
    ((ofLayout SlotTree.Counter.layout).callAll Moved.calls).Sound SlotTree.Counter.layout.tiling := by
  have hreach : (Tiling.ofSize 2 4).performAll SlotTree.Counter.ops = .ok SlotTree.Counter.layout.tiling := by
    decide +kernel
  have hcalls : (ofLayout SlotTree.Counter.layout).AdmitsAll Moved.calls :=
    ⟨admits_assign (by decide +kernel), trivial, admits_assign (by decide +kernel), trivial, trivial⟩
  exact ⟨hreach, hcalls, by decide +kernel, mapping_sound_after_calls hreach hcalls⟩

end Mapping

end SurfaceFabric
