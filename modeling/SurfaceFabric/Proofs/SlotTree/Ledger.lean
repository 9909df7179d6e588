import Mathlib.Algebra.Order.BigOperators.Group.Finset
import SurfaceFabric.Proofs.SlotTree.Bond
import SurfaceFabric.Proofs.SlotTree.Wares

/-!
Slot accounting. Requests ask for a slot of a kind or take a particular cell out of circulation. Whichever way a
slot goes out, its leaf holds one slot less and every node above it counts one slot less, so below the root every
count is what the leaves there still hold. A slot that has gone out is not on offer any more, so over a whole run
of requests no cell and no factory goes out twice.
-/

namespace SurfaceFabric

inductive SlotRequest
  | alloc (kind : SlotKind)
  | take (cell : Cell)
  deriving DecidableEq, Repr

/-- A slot that leaves a tree: handed out by a leaf, or a cell taken out of circulation. -/
inductive SlotEvent
  | handed (leaf : Nat) (slot : Slot)
  | withdrawn (cell : Cell)
  deriving DecidableEq, Repr

namespace SlotEvent

def slot : SlotEvent → Slot
  | .handed _ slot => slot
  | .withdrawn c => ⟨c, none⟩

end SlotEvent

def Slot.cell? (s : Slot) : Option Cell := if s.handle.isNone then some s.cell else none

def SlotEvent.factory? : SlotEvent → Option Nat
  | .handed leaf ⟨_, some _⟩ => some leaf
  | _ => none

def SlotNodeKind.isIdle : SlotNodeKind → Bool
  | .factory _ _ _ _ taken => !taken
  | _ => false

namespace SlotTree

variable {t u : SlotTree} {rank : Nat → Nat} {kind : SlotKind} {i leaf : Nat} {path : List Nat} {c : Cell}
  {k rest : SlotNodeKind}

def server? (t : SlotTree) (kind : SlotKind) : Option Nat := do
  let root ← t.root
  let path ← t.descend kind t.nodes.length root
  path.getLast?

def answer (t : SlotTree) : SlotRequest → List SlotEvent × SlotTree
  | .alloc kind =>
      match t.alloc? kind, t.server? kind with
      | some (slot, u), some leaf => ([.handed leaf slot], u)
      | _, _ => ([], t)
  | .take c =>
      match t.take? c with
      | some u => ([.withdrawn c], u)
      | none => ([], t)

def answerAll (t : SlotTree) : List SlotRequest → List SlotEvent × SlotTree
  | [] => ([], t)
  | q :: qs => ((t.answer q).1 ++ ((t.answer q).2.answerAll qs).1, ((t.answer q).2.answerAll qs).2)

def idle (t : SlotTree) : List Nat :=
  (List.range t.kinds.length).filter fun i => t.kinds[i]?.any SlotNodeKind.isIdle

theorem mem_idle : i ∈ t.idle ↔ ∃ k, t.kinds[i]? = some k ∧ k.isIdle = true := by
  rw [idle, List.mem_filter, List.mem_range]
  constructor
  · rintro ⟨hi, hidle⟩
    rw [List.getElem?_eq_getElem hi] at hidle
    exact ⟨_, List.getElem?_eq_getElem hi, by simpa using hidle⟩
  · rintro ⟨k, hk, hidle⟩
    exact ⟨(List.getElem?_eq_some_iff.1 hk).1, by simpa [hk] using hidle⟩

theorem nodup_idle (t : SlotTree) : t.idle.Nodup := List.nodup_range.filter _

theorem mem_idle_set (hk : t.kinds[leaf]? = some k) (hu : u.kinds = t.kinds.set leaf rest) :
    i ∈ u.idle ↔ if i = leaf then rest.isIdle = true else i ∈ t.idle := by
  have hlt := (List.getElem?_eq_some_iff.1 hk).1
  rw [mem_idle, mem_idle, hu, List.getElem?_set]
  by_cases hi : leaf = i
  · simp [hi, hi ▸ hlt]
  · simp [hi, Ne.symm hi]

/-- A factory that is handed out is idle no more. -/
theorem idle_perm_of_set (hk : t.kinds[leaf]? = some k) (hu : u.kinds = t.kinds.set leaf rest)
    (hidle : k.isIdle = true) (hrest : rest.isIdle = false) : (leaf :: u.idle).Perm t.idle := by
  have hnew : leaf ∉ u.idle := by
    rw [mem_idle_set hk hu, if_pos rfl, hrest]
    simp
  refine (List.perm_ext_iff_of_nodup (List.nodup_cons.2 ⟨hnew, u.nodup_idle⟩) t.nodup_idle).2 fun i => ?_
  rw [List.mem_cons, mem_idle_set hk hu]
  by_cases hi : i = leaf
  · simp only [hi, true_or, true_iff]
    exact mem_idle.2 ⟨k, hk, hidle⟩
  · simp [hi]

theorem idle_eq_of_set (hk : t.kinds[leaf]? = some k) (hu : u.kinds = t.kinds.set leaf rest)
    (hidle : rest.isIdle = k.isIdle) : u.idle.Perm t.idle := by
  refine (List.perm_ext_iff_of_nodup u.nodup_idle t.nodup_idle).2 fun i => ?_
  rw [mem_idle_set hk hu]
  split
  · next hi =>
      rw [hi, mem_idle, hk, hidle]
      simp
  · rfl

section Take

/-- The ancestors of a node are a way down to it from a top. -/
theorem Forest.exists_trail_ancestors (h : Forest t rank) {bound n : Nat}
    (hbound : ∀ i < t.nodes.length, rank i < bound) (hi : i < t.nodes.length) (hn : bound ≤ rank i + n) :
    ∃ a, t.parent? a = none ∧ Trail t a i (t.ancestors n i).reverse := by
  induction n generalizing i with
  | zero =>
      have := hbound i hi
      omega
  | succ n ih =>
      rw [ancestors, show (t.node? i).bind SlotNode.parent = t.parent? i from rfl]
      cases hp : t.parent? i with
      | none => exact ⟨i, hp, .done i⟩
      | some p =>
          have hchild := (h.parent_iff p i).2 hp
          have hrank := h.rank_lt p i hchild
          obtain ⟨a, htop, htrail⟩ := ih (h.lt_length hchild).1 (by omega)
          refine ⟨a, htop, ?_⟩
          rw [Option.map_some, Option.getD_some, List.reverse_cons]
          exact htrail.snoc hchild

theorem ancestors_congr (h : ∀ i, u.parent? i = t.parent? i) (n i : Nat) :
    u.ancestors n i = t.ancestors n i := by
  induction n generalizing i with
  | zero => rfl
  | succ n ih =>
      have hparent : (u.node? i).bind SlotNode.parent = (t.node? i).bind SlotNode.parent := h i
      rw [ancestors, ancestors, hparent, funext ih]

theorem Trail.below_of_mem {x : Nat} (htrail : Trail t i leaf path) (hx : x ∈ path) : t.Below x leaf := by
  induction htrail with
  | done i =>
      rw [List.mem_singleton.1 hx]
      exact .refl
  | step child rest ih =>
      rcases List.mem_cons.1 hx with rfl | hx
      · exact .head child rest.reaches
      · exact ih hx

theorem withoutCell_cells {segment : Nat} {left : List Cell} (hnodup : left.Nodup) :
    withoutCell c (.cells segment kind left) = .cells segment kind (left.erase c) := by
  rw [withoutCell, hnodup.erase_eq_filter]
  congr 2
  funext d
  simp [bne, Bool.beq_eq_decide_eq]

theorem lacks_withoutCell {segment : Nat} {left : List Cell} (hnodup : left.Nodup) (hc : c ∈ left) :
    Lacks kind (.cells segment kind left) (withoutCell c (.cells segment kind left)) := by
  rw [withoutCell_cells hnodup]
  refine ⟨⟨rfl, rfl⟩, ?_, fun kind' => ?_⟩
  · simpa [SlotNodeKind.stock] using List.length_pos_of_mem hc
  · by_cases hk : kind' = kind
    · simp [SlotNodeKind.stock, hk, List.length_erase_of_mem hc]
    · simp [SlotNodeKind.stock, hk]

theorem isSome_offersCell?_iff {n : SlotNode} :
    (offersCell? c n).isSome = true ↔ c ∈ n.kind.slots.map Prod.snd := by
  unfold offersCell?
  cases n.kind with
  | cells segment kind left => by_cases hc : c ∈ left <;> simp [SlotNodeKind.slots, hc]
  | factory segment handle template entrance taken => simp [SlotNodeKind.slots]
  | route segment => simp [SlotNodeKind.slots]
  | junction => simp [SlotNodeKind.slots]

theorem mem_offered_iff : c ∈ t.offered.map Prod.snd ↔ ∃ n ∈ t.nodes, (offersCell? c n).isSome = true := by
  simp only [isSome_offersCell?_iff, offered, kinds, List.map_flatMap, List.mem_flatMap, List.mem_map]
  constructor
  · rintro ⟨k, ⟨n, hn, rfl⟩, hc⟩
    exact ⟨n, hn, hc⟩
  · rintro ⟨n, hn, hc⟩
    exact ⟨n.kind, ⟨n, hn, rfl⟩, hc⟩

theorem offersCell?_eq_some {n : SlotNode} (h : offersCell? c n = some kind) :
    ∃ segment left, n.kind = .cells segment kind left ∧ c ∈ left := by
  unfold offersCell? at h
  split at h
  · next segment kind' left hkind =>
      split at h
      · next hc =>
          cases h
          exact ⟨segment, left, hkind, hc⟩
      · cases h
  · cases h

/-- A cell that is not on offer is refused; another leaves the leaf that offers it and all counts above. -/
theorem take?_cases (t : SlotTree) (c : Cell) :
    (t.take? c = none ∧ c ∉ t.offered.map Prod.snd) ∨
      ∃ leaf node segment kind left, t.node? leaf = some node ∧ node.kind = .cells segment kind left ∧
        c ∈ left ∧ c ∈ t.offered.map Prod.snd ∧ t.take? c = some (((t.modify leaf fun n =>
          { n with kind := withoutCell c n.kind }).ancestors t.nodes.length leaf).foldl
            (fun t i => t.modify i (.spend kind))
            (t.modify leaf fun n => { n with kind := withoutCell c n.kind })) := by
  rw [mem_offered_iff]
  cases hfind : t.nodes.findIdx? fun n => (offersCell? c n).isSome with
  | none =>
      refine .inl ⟨by simp [take?, hfind], ?_⟩
      rintro ⟨n, hn, hsome⟩
      have := List.findIdx?_eq_none_iff.1 hfind n hn
      rw [hsome] at this
      cases this
  | some leaf =>
      obtain ⟨hlt, hsome, -⟩ := List.findIdx?_eq_some_iff_getElem.1 hfind
      have hnode : t.node? leaf = some t.nodes[leaf] := List.getElem?_eq_getElem hlt
      obtain ⟨kind, hkind⟩ := Option.isSome_iff_exists.1 hsome
      obtain ⟨segment, left, hcells, hc⟩ := offersCell?_eq_some hkind
      refine .inr ⟨leaf, _, segment, kind, left, hnode, hcells, hc, ⟨_, List.getElem_mem hlt, hsome⟩, ?_⟩
      simp [take?, hfind, hnode, hkind]

end Take

/-- The cells on offer are the cells of the wares. -/
theorem offered_cells (t : SlotTree) :
    t.offered.map Prod.snd = (t.wares.map Prod.snd).filterMap Slot.cell? := by
  rw [offered_eq, List.map_map, List.filterMap_map]
  induction t.wares with
  | nil => rfl
  | cons w ws ih =>
      by_cases hw : w.2.handle.isNone
      · simp only [List.filter_cons, hw, if_true, List.map_cons, List.filterMap_cons, Function.comp_apply, Slot.cell?]
        rw [ih]
      · simp only [List.filter_cons, hw, if_false, List.filterMap_cons, Function.comp_apply, Slot.cell?,
          Bool.false_eq_true]
        exact ih

theorem le_holdings {j : Nat} (hj : j < t.nodes.length) (hij : t.Below i j) (kind : SlotKind) :
    t.stock j kind ≤ t.holdings i kind := by
  classical
  exact Finset.single_le_sum (f := fun j => t.stock j kind) (fun _ _ => Nat.zero_le _)
    (Finset.mem_filter.2 ⟨Finset.mem_range.2 hj, hij⟩)

/-- A counted tree that offers no cell twice. -/
structure Solvent (t : SlotTree) (rank : Nat → Nat) : Prop where
  stocked : Stocked t rank
  distinct : (t.offered.map Prod.snd).Nodup

namespace Solvent

theorem nodup_left (h : Solvent t rank) {segment : Nat} {left : List Cell}
    (hk : t.kinds[leaf]? = some (.cells segment kind left)) : left.Nodup := by
  have hdistinct := h.distinct
  rw [offered, List.map_flatMap, List.nodup_flatMap] at hdistinct
  simpa [SlotNodeKind.slots, Function.comp_def] using hdistinct.1 _ (List.mem_of_getElem? hk)

/-- A slot of a kind comes from the leaf at the end of the way down, and is all that goes. -/
theorem alloc (h : Solvent t rank) {slot : Slot} (halloc : t.alloc? kind = some (slot, u)) :
    ∃ r leaf k rest, t.root = some r ∧ t.Below r leaf ∧ t.server? kind = some leaf ∧ t.kinds[leaf]? = some k ∧
      Hands kind slot k rest ∧ u.kinds = t.kinds.set leaf rest ∧ Stocked u rank ∧ SameLinks t u ∧
      ∀ kind', u.capacity kind' = t.capacity kind' - if kind' = kind then 1 else 0 := by
  obtain ⟨r, slot', u', leaf, path, k, rest, hr, halloc', hpath, htrail, hfree, hk, hands, hdrawn⟩ :=
    h.stocked.exists_drawn (capacity_pos_of_alloc? halloc)
  rw [halloc] at halloc'
  cases halloc'
  refine ⟨r, leaf, k, rest, hr, htrail.reaches, ?_, hk, hands, hdrawn.kinds, ?_, hdrawn.toSameLinks, ?_⟩
  · simp [server?, hr, hpath, htrail.getLast?]
  · exact h.stocked.drawn (h.stocked.top r hr).2 htrail (fun _ _ x hx _ => hfree x hx) hk hands.lacks hdrawn
  · exact hdrawn.capacity_eq hr htrail.mem_first

/-- A cell that is taken comes from the leaf that offers it, and is all that goes. -/
theorem take (h : Solvent t rank) (htake : t.take? c = some u) :
    ∃ leaf segment kind left, t.kinds[leaf]? = some (.cells segment kind left) ∧ c ∈ left ∧
      u.kinds = t.kinds.set leaf (.cells segment kind (left.erase c)) ∧ Stocked u rank ∧ SameLinks t u := by
  rcases take?_cases t c with ⟨hnone, -⟩ | ⟨leaf, node, segment, kind, left, hnode, hcells, hc, -, hsome⟩
  · rw [hnone] at htake
    cases htake
  · rw [hsome, Option.some.injEq] at htake
    have hk : t.kinds[leaf]? = some (.cells segment kind left) := by
      rw [kinds_getElem?, hnode, Option.map_some, hcells]
    have hnodup := h.nodup_left hk
    have hlacks : Lacks kind node.kind (withoutCell c node.kind) := by
      rw [hcells]
      exact lacks_withoutCell hnodup hc
    have hancestors : (t.modify leaf fun n => { n with kind := withoutCell c n.kind }).ancestors t.nodes.length leaf =
        t.ancestors t.nodes.length leaf := by
      refine ancestors_congr (fun _ => ?_) _ _
      exact parent?_modify fun _ => rfl
    rw [hancestors] at htake
    -- the way up may end at a top that is not the root; only below the root do counts matter
    have hlt := lt_length_of_node? hnode
    obtain ⟨a, htop, htrail⟩ := h.stocked.forest.exists_trail_ancestors (n := t.nodes.length) h.stocked.bounded
      hlt (by omega)
    have hdrawn : Drawn t kind leaf (t.ancestors t.nodes.length leaf) (withoutCell c node.kind) u := by
      rw [← htake]
      exact drawn_spend hnode hlacks (List.nodup_reverse.1 (htrail.nodup h.stocked.forest))
    have hkinds : u.kinds = t.kinds.set leaf (.cells segment kind (left.erase c)) := by
      rw [hdrawn.kinds, hcells, withoutCell_cells hnodup]
    refine ⟨leaf, segment, kind, left, hk, hc, hkinds, ?_, hdrawn.toSameLinks⟩
    refine h.stocked.drawn htop htrail ?_ (hcells ▸ hk) hlacks (hdrawn.congr fun x => List.mem_reverse.symm)
    intro r hr x hx hbelow
    rw [h.stocked.free_eq_holdings hr hbelow]
    have hstock : t.stock leaf kind = node.kind.stock kind := by simp [stock, hk, hcells]
    exact (hstock ▸ hlacks.stock_pos).trans_le (le_holdings hlt (htrail.below_of_mem hx) kind)

end Solvent

/-- Events lead from one counted tree to another: what has gone out and what is left make up what there was. -/
structure Balanced (rank : Nat → Nat) (t : SlotTree) (events : List SlotEvent) (u : SlotTree) : Prop where
  stocked : Stocked u rank
  slots : (events.map SlotEvent.slot ++ u.wares.map Prod.snd).Perm (t.wares.map Prod.snd)
  factories : (events.filterMap SlotEvent.factory? ++ u.idle).Perm t.idle

namespace Balanced

variable {v : SlotTree} {events later : List SlotEvent}

theorem refl (h : Stocked t rank) : Balanced rank t [] t := ⟨h, .refl _, .refl _⟩

theorem trans (h : Balanced rank t events u) (h' : Balanced rank u later v) :
    Balanced rank t (events ++ later) v where
  stocked := h'.stocked
  slots := by
    rw [List.map_append, List.append_assoc]
    exact (h'.slots.append_left _).trans h.slots
  factories := by
    rw [List.filterMap_append, List.append_assoc]
    exact (h'.factories.append_left _).trans h.factories

/-- Cells that have gone out and cells on offer are cells that were on offer, each once. -/
theorem cells_perm (h : Balanced rank t events u) :
    (events.filterMap (fun e => e.slot.cell?) ++ u.offered.map Prod.snd).Perm (t.offered.map Prod.snd) := by
  have hperm := h.slots.filterMap Slot.cell?
  rwa [List.filterMap_append, List.filterMap_map, ← offered_cells, ← offered_cells] at hperm

theorem solvent (h : Balanced rank t events u) (ht : Solvent t rank) : Solvent u rank :=
  ⟨h.stocked, (List.nodup_append.1 (h.cells_perm.nodup_iff.2 ht.distinct)).2.1⟩

end Balanced

namespace Solvent

theorem wares_alloc (h : Solvent t rank) {slot : Slot} (halloc : t.alloc? kind = some (slot, u)) :
    t.wares.Perm ((kind, slot) :: u.wares) := by
  obtain ⟨-, leaf, k, rest, -, -, -, hk, hands, hkinds, -⟩ := h.alloc halloc
  rw [wares, wares, hkinds]
  exact flatMap_set_perm hk (.of_eq hands.wares)

theorem wares_take (h : Solvent t rank) (htake : t.take? c = some u) :
    ∃ kind, t.wares.Perm ((kind, ⟨c, none⟩) :: u.wares) := by
  obtain ⟨leaf, segment, kind, left, hk, hc, hkinds, -⟩ := h.take htake
  refine ⟨kind, ?_⟩
  rw [wares, wares, hkinds]
  refine flatMap_set_perm hk ?_
  exact (List.perm_cons_erase hc).map fun d => (kind, (⟨d, none⟩ : Slot))

/-- The leaf that is named in the event is the one that loses the slot. -/
theorem balanced_alloc (h : Solvent t rank) {slot : Slot} (halloc : t.alloc? kind = some (slot, u)) :
    ∃ leaf, t.server? kind = some leaf ∧ Balanced rank t [.handed leaf slot] u := by
  obtain ⟨-, leaf, k, rest, -, -, hserver, hk, hands, hkinds, hstocked, -⟩ := h.alloc halloc
  refine ⟨leaf, hserver, hstocked, ((h.wares_alloc halloc).map Prod.snd).symm, ?_⟩
  cases hands with
  | cell segment kind c left => exact idle_eq_of_set hk hkinds rfl
  | factory segment handle template entrance => exact idle_perm_of_set hk hkinds rfl rfl

theorem balanced_take (h : Solvent t rank) (htake : t.take? c = some u) :
    Balanced rank t [.withdrawn c] u := by
  obtain ⟨leaf, segment, kind, left, hk, hc, hkinds, hstocked, -⟩ := h.take htake
  obtain ⟨_, hperm⟩ := h.wares_take htake
  exact ⟨hstocked, (hperm.map Prod.snd).symm, idle_eq_of_set hk hkinds rfl⟩

theorem answer (h : Solvent t rank) (q : SlotRequest) : Balanced rank t (t.answer q).1 (t.answer q).2 := by
  cases q with
  | alloc kind =>
      cases halloc : t.alloc? kind with
      | none =>
          simp only [SlotTree.answer, halloc]
          exact .refl h.stocked
      | some result =>
          obtain ⟨leaf, hserver, hbalanced⟩ := h.balanced_alloc halloc
          simpa only [SlotTree.answer, halloc, hserver] using hbalanced
  | take c =>
      cases htake : t.take? c with
      | none =>
          simp only [SlotTree.answer, htake]
          exact .refl h.stocked
      | some u =>
          simpa only [SlotTree.answer, htake] using h.balanced_take htake

theorem answerAll (h : Solvent t rank) (requests : List SlotRequest) :
    Balanced rank t (t.answerAll requests).1 (t.answerAll requests).2 := by
  induction requests generalizing t with
  | nil => exact .refl h.stocked
  | cons q qs ih =>
      have hstep := h.answer q
      exact hstep.trans (ih (hstep.solvent h))

end Solvent

structure Accounted (t : SlotTree) : Prop where
  /-- Below the root, every node counts what the leaves from there down still hold. -/
  counted : ∀ r i kind, t.root = some r → t.Below r i → t.free i kind = t.holdings i kind
  alloc_iff : ∀ kind, (t.alloc? kind).isSome = true ↔ 0 < t.capacity kind
  /-- A slot of a kind comes from a leaf under the root. It is all that goes, and the count of its kind all that
  falls. -/
  alloc : ∀ kind slot u, t.alloc? kind = some (slot, u) → ∃ leaf k rest, t.Hangs leaf ∧
    t.server? kind = some leaf ∧ t.kinds[leaf]? = some k ∧ Hands kind slot k rest ∧
    u.kinds = t.kinds.set leaf rest ∧
    ∀ kind', t.capacity kind' = u.capacity kind' + if kind' = kind then 1 else 0
  take_iff : ∀ c, (t.take? c).isSome = true ↔ c ∈ t.offered.map Prod.snd
  /-- A cell that is taken leaves its leaf and is all that goes. -/
  take : ∀ c u, t.take? c = some u → ∃ leaf segment kind left,
    t.kinds[leaf]? = some (.cells segment kind left) ∧ c ∈ left ∧
    u.kinds = t.kinds.set leaf (.cells segment kind (left.erase c)) ∧ c ∉ u.offered.map Prod.snd

theorem Solvent.accounted (h : Solvent t rank) : t.Accounted where
  counted _ _ kind hr hi := h.stocked.free_eq_holdings hr hi kind
  alloc_iff kind := by
    constructor
    · intro hsome
      obtain ⟨⟨slot, u⟩, halloc⟩ := Option.isSome_iff_exists.1 hsome
      exact capacity_pos_of_alloc? halloc
    · intro hpos
      obtain ⟨slot, u, -, -, -, halloc, -⟩ := h.stocked.exists_alloc hpos
      rw [halloc]
      rfl
  alloc kind slot u halloc := by
    obtain ⟨r, leaf, k, rest, hr, hbelow, hserver, hk, hands, hkinds, -, -, hcapacity⟩ := h.alloc halloc
    have hpos := capacity_pos_of_alloc? halloc
    refine ⟨leaf, k, rest, ⟨r, hr, h.stocked.forest.climbs_iff.2 hbelow⟩, hserver, hk, hands, hkinds,
      fun kind' => ?_⟩
    rw [hcapacity]
    split
    · next heq =>
        rw [heq]
        omega
    · omega
  take_iff c := by
    rcases take?_cases t c with ⟨hnone, hout⟩ | ⟨leaf, node, segment, kind, left, -, -, -, hin, hsome⟩
    · simp [hnone, hout]
    · rw [hsome]
      exact iff_of_true rfl hin
  take c u htake := by
    obtain ⟨leaf, segment, kind, left, hk, hc, hkinds, -⟩ := h.take htake
    have hperm := (h.balanced_take htake).cells_perm
    have hnodup : (c :: u.offered.map Prod.snd).Nodup := hperm.nodup_iff.2 h.distinct
    exact ⟨leaf, segment, kind, left, hk, hc, hkinds, (List.nodup_cons.1 hnodup).1⟩

/-- A request is refused only if the root counts no slot of the kind. -/
theorem Solvent.capacity_eq_zero (h : Solvent t rank) (hnone : t.alloc? kind = none) : t.capacity kind = 0 := by
  by_contra hcapacity
  have hsome := (h.accounted.alloc_iff kind).2 (Nat.pos_of_ne_zero hcapacity)
  rw [hnone] at hsome
  cases hsome

theorem roleAt?_of_mem_offered_build {l : Layout} (h : l.tiling.WellTiled) {p : SlotKind × Cell}
    (hp : p ∈ (build l).offered) : ∃ role, p.1.role? = some role ∧ l.tiling.roleAt? p.2 = some role := by
  cases hmain : (AccessGraph.ofTiling l.tiling).main? with
  | none =>
      rw [build, hmain] at hp
      cases hp
  | some main =>
      obtain ⟨leader, -, -, hmem⟩ := AccessGraph.mem_of_main? h hmain
      rw [offered, flatMap_kinds_build hmain fun _ => SlotNodeKind.slots_of_inner] at hp
      exact roleAt?_of_mem_leavesOf h (fun s hs => (AccessGraph.mem_vertices.1 ((hmem s).1 hs).1).1) hp

theorem exists_solvent_build {l : Layout} (h : l.tiling.WellTiled) : ∃ rank, Solvent (build l) rank := by
  cases hmain : (AccessGraph.ofTiling l.tiling).main? with
  | none =>
      have hempty : build l = empty := by rw [build, hmain]
      rw [hempty]
      exact ⟨id, stocked_empty id, List.nodup_nil⟩
  | some main =>
      obtain ⟨rank, hstocked, -⟩ := pruned_build hmain
      obtain ⟨leader, -, hascending, hmem⟩ := AccessGraph.mem_of_main? h hmain
      refine ⟨rank, hstocked, ?_⟩
      rw [offered, flatMap_kinds_build hmain fun _ => SlotNodeKind.slots_of_inner]
      exact nodup_leavesOf h hascending fun s hs => (AccessGraph.mem_vertices.1 ((hmem s).1 hs).1).1

/-- After any requests to the slot tree of any layout its counts and answers are right, no cell has gone out twice
or is still on offer, and no factory has gone out twice. -/
theorem slots_accounted {l : Layout} {height width : Nat} {ops : List Tiling.Operation}
    (hreach : (Tiling.ofSize height width).performAll ops = .ok l.tiling) (requests : List SlotRequest) :
    ((build l).answerAll requests).2.Accounted ∧
      (((build l).answerAll requests).1.filterMap (fun e => e.slot.cell?) ++
        ((build l).answerAll requests).2.offered.map Prod.snd).Nodup ∧
      (((build l).answerAll requests).1.filterMap SlotEvent.factory? ++
        ((build l).answerAll requests).2.idle).Nodup := by
  have hwell := (Tiling.wellTiled_ofSize height width).changes (Tiling.changes_of_performAll hreach)
  obtain ⟨rank, hsolvent⟩ := exists_solvent_build hwell
  have hrun := hsolvent.answerAll requests
  exact ⟨(hrun.solvent hsolvent).accounted, hrun.cells_perm.nodup_iff.2 hsolvent.distinct,
    hrun.factories.nodup_iff.2 (build l).nodup_idle⟩

namespace Counter

/-- A factory, a register of two cells and an I/O cell above a routing row. -/
def ops : List Tiling.Operation :=
  [.partition 0 [.taken (.factory 0) ⟨0, 0, 1, 1⟩, .taken .register ⟨0, 1, 1, 3⟩, .taken .io ⟨0, 3, 1, 4⟩,
    .taken .route ⟨1, 0, 2, 4⟩]]

def layout : Layout :=
  .addUnit (.ofTiling ⟨2, 4, [⟨1, ⟨0, 0, 1, 1⟩, true, .factory 0, [], [4], [], [2]⟩,
    ⟨2, ⟨0, 1, 1, 3⟩, true, .register, [], [4], [1], [3]⟩, ⟨3, ⟨0, 3, 1, 4⟩, true, .io, [], [4], [2], []⟩,
    ⟨4, ⟨1, 0, 2, 4⟩, true, .route, [1, 2, 3], [], [], []⟩], 5⟩ 1) ⟨"T", 1, 1, 4⟩ 1

/-- Of a register of two cells one is taken and one handed out; neither goes again, nor does the factory. -/
def requests : List SlotRequest :=
  [.take ⟨0, 2⟩, .alloc .register, .alloc (.factory "T"), .alloc (.factory "T"), .take ⟨0, 1⟩, .alloc .register,
    .alloc .io]

end Counter

theorem counter_accounted : (Tiling.ofSize 2 4).performAll Counter.ops = .ok Counter.layout.tiling ∧
    ((build Counter.layout).answerAll Counter.requests).1 = [.withdrawn ⟨0, 2⟩, .handed 2 ⟨⟨0, 1⟩, none⟩,
      .handed 1 ⟨⟨0, 0⟩, some 0⟩, .handed 3 ⟨⟨0, 3⟩, none⟩] ∧
    ((build Counter.layout).answerAll Counter.requests).2.Accounted := by
  have hreach : (Tiling.ofSize 2 4).performAll Counter.ops = .ok Counter.layout.tiling := by decide +kernel
  exact ⟨hreach, by decide +kernel, (slots_accounted hreach Counter.requests).1⟩

end SlotTree

end SurfaceFabric
