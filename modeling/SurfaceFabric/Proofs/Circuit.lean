import Mathlib.Algebra.GroupWithZero.Nat
import Mathlib.Algebra.Order.BigOperators.Group.List
import Mathlib.Algebra.Order.Group.Nat
import Mathlib.Data.List.Perm.Subperm
import Mathlib.Data.Nat.Find
import SurfaceFabric.Circuit

/-!
Circuits built gate by gate. Every gate of one was accepted, depends on earlier nodes only, and lies one
layer below the deepest of them. The uses name the operands of the gates, each once.
-/

namespace SurfaceFabric.Circuit

variable {c : Circuit} {n : Nat} {g : Gate} {s : Symbol} {node : Node}

/-- Circuits made from the empty one by adding gates; a gate that is not accepted changes nothing. -/
inductive Built : Circuit → Prop
  | empty : Built empty
  | add {c c' : Circuit} {g : Gate} : Built c → c.add g = .ok c' → Built c'

theorem add_eq_ok_iff {c c' : Circuit} :
    c.add g = .ok c' ↔ objection? g = none ∧ c' = c.append g := by
  unfold add
  cases h : objection? g with
  | some e => simp
  | none => simp [eq_comm]

theorem Built.extend (h : c.Built) (hg : objection? g = none) : (c.append g).Built :=
  h.add (add_eq_ok_iff.2 ⟨hg, rfl⟩)

@[simp] theorem size_append (c : Circuit) (g : Gate) : (c.append g).size = c.size + 1 := by
  simp [append, size]

theorem node?_append (c : Circuit) (g : Gate) (n : Nat) :
    (c.append g).node? n = if n = c.size then
      some ⟨g, c.layerAfter (c.dependenciesOf g), c.dependenciesOf g⟩ else c.node? n := by
  unfold append node? size
  dsimp only
  split
  · next h => simp [h]
  · next h =>
      by_cases hlt : n < c.nodes.length
      · rw [List.getElem?_append_left hlt]
      · rw [List.getElem?_eq_none (by simp; omega), List.getElem?_eq_none (by omega)]

theorem gate?_eq_some_iff :
    c.gate? n = some g ↔ ∃ node, c.node? n = some node ∧ node.gate = g := by
  simp [gate?]

theorem gate?_isSome (h : n < c.size) : ∃ g, c.gate? n = some g := by
  simp only [gate?, node?, size] at h ⊢
  simp [List.getElem?_eq_getElem h]

def Plain (c : Circuit) : Prop :=
  ∀ n g, c.gate? n = some g → ∀ s ∈ g.operands, s.isFactory = false

instance (c : Circuit) : Decidable c.Plain :=
  decidable_of_iff (∀ node ∈ c.nodes, ∀ s ∈ node.gate.operands, s.isFactory = false) <| by
    constructor
    · intro h n g hg
      obtain ⟨node, hnode, rfl⟩ := gate?_eq_some_iff.1 hg
      exact h node (List.mem_of_getElem? hnode)
    · intro h node hnode
      obtain ⟨n, hn⟩ := List.mem_iff_getElem?.1 hnode
      exact h n node.gate (gate?_eq_some_iff.2 ⟨node, hn, rfl⟩)

/-- Gates of one or two operands, none of them a factory. -/
def Ordinary (c : Circuit) : Prop :=
  ∀ n g, c.gate? n = some g → g.operands.length ≤ 2 ∧ ∀ s ∈ g.operands, s.isFactory = false

theorem Ordinary.plain (h : c.Ordinary) : c.Plain := fun n g hg => (h n g hg).2

/-- The gates of a circuit passed all checks. -/
theorem Built.objection?_eq_none (h : Built c) {n : Nat} {g : Gate}
    (hg : c.gate? n = some g) : objection? g = none := by
  induction h with
  | empty => simp [gate?, node?, Circuit.empty] at hg
  | @add c c' g' _ hadd ih =>
      obtain ⟨hnone, rfl⟩ := add_eq_ok_iff.1 hadd
      obtain ⟨node, hnode, rfl⟩ := gate?_eq_some_iff.1 hg
      rw [node?_append] at hnode
      split at hnode
      · cases hnode
        exact hnone
      · exact ih (gate?_eq_some_iff.2 ⟨node, hnode, rfl⟩)

theorem firstRepeated_eq_none_iff {seen l : List Symbol} :
    firstRepeated seen l = none ↔ l.Nodup ∧ ∀ s ∈ l, s ∉ seen := by
  induction l generalizing seen with
  | nil => simp [firstRepeated]
  | cons a rest ih =>
      rw [firstRepeated]
      split
      · next hseen => simp [hseen]
      · next hfresh =>
          rw [ih, List.nodup_cons]
          constructor
          · rintro ⟨hnodup, hnew⟩
            refine ⟨⟨fun hmem => hnew a hmem List.mem_cons_self, hnodup⟩, ?_⟩
            intro s hs
            rcases List.mem_cons.1 hs with rfl | hs
            · exact hfresh
            · exact fun hmem => hnew s hs (List.mem_cons_of_mem _ hmem)
          · rintro ⟨⟨hfirst, hnodup⟩, hnew⟩
            refine ⟨hnodup, fun s hs hmem => ?_⟩
            rcases List.mem_cons.1 hmem with rfl | hmem
            · exact hfirst hs
            · exact hnew s (List.mem_cons_of_mem _ hs) hmem

/-- The gates that can be appended. -/
theorem objection?_eq_none_iff : objection? g = none ↔ g.operands ≠ [] ∧ 0 < g.cycles ∧
      (g.isReset = true → g.operands.length = 1 ∧ ∀ s ∈ g.operands, s.isFactory = true) ∧
      g.operands.Nodup := by
  unfold objection?
  split
  · next hempty => simp [List.isEmpty_iff.1 hempty]
  · next hsome =>
      rw [List.isEmpty_iff] at hsome
      split
      · next hzero => simp [hzero]
      · next hpos =>
          split
          · next hreset =>
              simp only [reduceCtorEq, false_iff]
              rintro ⟨-, -, hfactory, -⟩
              simp only [Bool.and_eq_true, Bool.not_eq_true', Bool.and_eq_false_iff,
                beq_eq_false_iff_ne, List.all_eq_false] at hreset
              obtain ⟨hone, hall⟩ := hfactory hreset.1
              rcases hreset.2 with hne | ⟨s, hs, hplain⟩
              · exact hne hone
              · exact hplain (hall s hs)
          · next hreset =>
              rw [Option.map_eq_none_iff, firstRepeated_eq_none_iff]
              simp only [List.not_mem_nil, not_false_eq_true, implies_true, and_true]
              refine ⟨fun hnodup => ⟨hsome, Nat.pos_of_ne_zero hpos, ?_, hnodup⟩, fun h => h.2.2.2⟩
              intro hres
              simpa [hres] using hreset

theorem Built.cycles_pos (h : Built c) {n : Nat} {g : Gate} (hg : c.gate? n = some g) :
    0 < g.cycles :=
  (objection?_eq_none_iff.1 (h.objection?_eq_none hg)).2.1

theorem Built.nodup_operands (h : Built c) {n : Nat} {g : Gate} (hg : c.gate? n = some g) : g.operands.Nodup :=
  (objection?_eq_none_iff.1 (h.objection?_eq_none hg)).2.2.2

theorem map_fst_noteUse (n : Nat) (uses : List (Symbol × Nat)) (s : Symbol) :
    (noteUse n uses s).map Prod.fst =
      if s ∈ uses.map Prod.fst then uses.map Prod.fst else uses.map Prod.fst ++ [s] := by
  induction uses with
  | nil => simp [noteUse]
  | cons use rest ih =>
      obtain ⟨u, m⟩ := use
      rw [noteUse]
      by_cases heq : u = s
      · simp [heq]
      · rw [if_neg heq, List.map_cons, ih]
        have hne : s ≠ u := fun h => heq h.symm
        simp only [List.map_cons, List.mem_cons, hne, false_or]
        split <;> simp

theorem mem_map_fst_noteUse {uses : List (Symbol × Nat)} {s u : Symbol} :
    u ∈ (noteUse n uses s).map Prod.fst ↔ u = s ∨ u ∈ uses.map Prod.fst := by
  rw [map_fst_noteUse]
  split
  · next hs => exact ⟨.inr, fun h => h.elim (fun h => h ▸ hs) id⟩
  · rw [List.mem_append, List.mem_singleton]
    exact or_comm

theorem nodup_map_fst_noteUse {uses : List (Symbol × Nat)}
    (h : (uses.map Prod.fst).Nodup) : ((noteUse n uses s).map Prod.fst).Nodup := by
  rw [map_fst_noteUse]
  split
  · exact h
  · next hs =>
      rw [List.nodup_append]
      refine ⟨h, by simp, ?_⟩
      intro a ha b hb
      rw [List.mem_singleton.1 hb]
      exact fun heq => hs (heq ▸ ha)

theorem mem_noteUse {uses : List (Symbol × Nat)} {use : Symbol × Nat}
    (h : use ∈ noteUse n uses s) : use.2 = n ∨ use ∈ uses := by
  induction uses with
  | nil =>
      rw [noteUse, List.mem_singleton] at h
      exact .inl (h ▸ rfl)
  | cons first rest ih =>
      obtain ⟨u, m⟩ := first
      rw [noteUse] at h
      split at h
      · rcases List.mem_cons.1 h with rfl | h
        · exact .inl rfl
        · exact .inr (List.mem_cons_of_mem _ h)
      · rcases List.mem_cons.1 h with rfl | h
        · exact .inr List.mem_cons_self
        · exact (ih h).imp_right (List.mem_cons_of_mem _)

/-- The uses of a circuit: each operand once, with a node of the circuit. -/
structure Uses (c : Circuit) : Prop where
  nodup : (c.lastUses.map Prod.fst).Nodup
  lt_size : ∀ use ∈ c.lastUses, use.2 < c.size
  mem_iff : ∀ s, s ∈ c.lastUses.map Prod.fst ↔ ∃ n g, c.gate? n = some g ∧ s ∈ g.operands

theorem Uses.append (h : Uses c) (g : Gate) : Uses (c.append g) := by
  have hfold (operands : List Symbol) (uses : List (Symbol × Nat))
      (hnodup : (uses.map Prod.fst).Nodup) (hlt : ∀ use ∈ uses, use.2 ≤ c.size) :
      ((operands.foldl (noteUse c.size) uses).map Prod.fst).Nodup ∧
        (∀ use ∈ operands.foldl (noteUse c.size) uses, use.2 ≤ c.size) ∧
          ∀ s, s ∈ (operands.foldl (noteUse c.size) uses).map Prod.fst ↔
            s ∈ operands ∨ s ∈ uses.map Prod.fst := by
    induction operands generalizing uses with
    | nil => exact ⟨hnodup, hlt, fun s => by simp⟩
    | cons a rest ih =>
        obtain ⟨hnodup', hlt', hmem⟩ := ih (noteUse c.size uses a) (nodup_map_fst_noteUse hnodup)
          fun use huse => (mem_noteUse huse).elim Nat.le_of_eq (hlt use)
        refine ⟨hnodup', hlt', fun s => ?_⟩
        rw [List.foldl_cons, hmem, mem_map_fst_noteUse, List.mem_cons]
        exact or_left_comm.trans or_assoc.symm
  obtain ⟨hnodup, hlt, hmem⟩ := hfold g.operands c.lastUses h.nodup fun use huse =>
    Nat.le_of_lt (h.lt_size use huse)
  refine ⟨hnodup, fun use huse => ?_, fun s => (hmem s).trans ?_⟩
  · rw [size_append]
    exact Nat.lt_succ_of_le (hlt use huse)
  · rw [h.mem_iff]
    simp only [gate?_eq_some_iff, node?_append]
    constructor
    · rintro (hs | ⟨n, g', ⟨node, hnode, rfl⟩, hs⟩)
      · exact ⟨c.size, g, ⟨_, if_pos rfl, rfl⟩, hs⟩
      · have hne : n ≠ c.size := by
          rintro rfl
          simp [node?, size] at hnode
        exact ⟨n, _, ⟨node, by rw [if_neg hne, hnode], rfl⟩, hs⟩
    · rintro ⟨n, g', ⟨node, hnode, rfl⟩, hs⟩
      split at hnode
      · cases hnode
        exact .inl hs
      · exact .inr ⟨n, _, ⟨node, hnode, rfl⟩, hs⟩

theorem Built.uses (h : Built c) : Uses c := by
  induction h with
  | empty => exact ⟨by simp [Circuit.empty], by simp [Circuit.empty], by simp [Circuit.empty, gate?, node?]⟩
  | add _ hadd ih =>
      obtain ⟨-, rfl⟩ := add_eq_ok_iff.1 hadd
      exact ih.append _

theorem Uses.dependenciesOf_lt (h : Uses c) {g : Gate} {p : Nat}
    (hp : p ∈ c.dependenciesOf g) : p < c.size := by
  rw [dependenciesOf, mem_sortedSet, List.mem_filterMap] at hp
  obtain ⟨s, -, hs⟩ := hp
  obtain ⟨before, after, huses, -⟩ := List.lookup_eq_some_iff.1 hs
  refine h.lt_size (s, p) ?_
  rw [huses]
  simp

theorem layerAfter_append {dependencies : List Nat} (h : ∀ p ∈ dependencies, p < c.size) :
    (c.append g).layerAfter dependencies = c.layerAfter dependencies := by
  unfold layerAfter
  congr 2
  refine List.map_congr_left fun p hp => ?_
  rw [node?_append, if_neg (Nat.ne_of_lt (h p hp))]

theorem Built.dependencies_lt (h : Built c) {n p : Nat} {node : Node}
    (hnode : c.node? n = some node) (hp : p ∈ node.dependencies) : p < n := by
  induction h with
  | empty => simp [node?, Circuit.empty] at hnode
  | @add c c' g hbuilt hadd ih =>
      obtain ⟨-, rfl⟩ := add_eq_ok_iff.1 hadd
      rw [node?_append] at hnode
      split at hnode
      · next hn =>
          cases hnode
          exact hn ▸ hbuilt.uses.dependenciesOf_lt hp
      · exact ih hnode

theorem node?_lt (h : c.node? n = some node) : n < c.size :=
  (List.getElem?_eq_some_iff.1 h).1

theorem Built.layer_eq (h : Built c) {n : Nat} {node : Node}
    (hnode : c.node? n = some node) : node.layer = c.layerAfter node.dependencies := by
  induction h with
  | empty => simp [node?, Circuit.empty] at hnode
  | @add c c' g hbuilt hadd ih =>
      obtain ⟨-, rfl⟩ := add_eq_ok_iff.1 hadd
      rw [node?_append] at hnode
      split at hnode
      · cases hnode
        exact (layerAfter_append fun p hp => hbuilt.uses.dependenciesOf_lt hp).symm
      · rw [layerAfter_append fun p hp =>
          Nat.lt_trans (hbuilt.dependencies_lt hnode hp) (node?_lt hnode)]
        exact ih hnode

/-- A gate lies below the gates it depends on. -/
theorem Built.layer_lt (h : Built c) {n p : Nat} {node earlier : Node}
    (hnode : c.node? n = some node) (hp : p ∈ node.dependencies) (hearlier : c.node? p = some earlier) :
    earlier.layer < node.layer := by
  rw [h.layer_eq hnode]
  refine List.le_max?_getD_of_mem (List.mem_map.2 ⟨p, hp, ?_⟩)
  rw [hearlier]
  rfl

/-- As long as not all gates are finished, there is one that depends on finished ones only. -/
theorem Built.exists_ready (h : Built c) (finished : List Nat) (hsize : finished.length < c.size) :
    ∃ n < c.size, n ∉ finished ∧ ∀ p ∈ c.dependencies n, p ∈ finished := by
  have hexists : ∃ n, n < c.size ∧ n ∉ finished := by
    by_contra hall
    push Not at hall
    have hsub : (List.range c.size).Subperm finished :=
      List.nodup_range.subperm fun n hn => hall n (List.mem_range.1 hn)
    have hle := hsub.length_le
    rw [List.length_range] at hle
    omega
  -- the first unfinished gate
  obtain ⟨hn, hunfinished⟩ := Nat.find_spec hexists
  refine ⟨Nat.find hexists, hn, hunfinished, ?_⟩
  intro p hp
  have hnode : c.node? (Nat.find hexists) = some c.nodes[Nat.find hexists] := List.getElem?_eq_getElem hn
  rw [dependencies, hnode] at hp
  have hlt := h.dependencies_lt hnode hp
  by_contra hnot
  exact Nat.find_min hexists hlt ⟨hlt.trans hn, hnot⟩

theorem Built.mem_symbols (h : Built c) {n : Nat} {g : Gate} (hg : c.gate? n = some g) {s : Symbol}
    (hs : s ∈ g.operands) (hfactory : s.isFactory = false) : s ∈ c.symbols :=
  List.mem_filter.2 ⟨(h.uses.mem_iff s).2 ⟨n, g, hg, hs⟩, by simp [hfactory]⟩

theorem Built.nodup_symbols (h : Built c) : c.symbols.Nodup := h.uses.nodup.filter _

theorem isFactory_of_mem_symbols (hs : s ∈ c.symbols) :
    s.isFactory = false := by
  simpa using (List.mem_filter.1 hs).2

/-- A circuit without factories names no templates. -/
theorem Built.templates_eq_nil (h : Built c) (hplain : c.Plain) : c.templates = [] := by
  have hnone : c.lastUses.filterMap (fun use => use.1.template?) = [] := by
    rw [List.filterMap_eq_nil_iff]
    intro use huse
    obtain ⟨n, g, hg, hs⟩ := (h.uses.mem_iff use.1).1 (List.mem_map_of_mem huse)
    have hfactory := use.1.template?_isSome
    rw [hplain n g hg use.1 hs, Option.isSome_eq_false_iff, Option.isNone_iff_eq_none] at hfactory
    exact hfactory
  rw [templates, hnone]
  rfl

def cyclesOf (c : Circuit) (n : Nat) : Nat := ((c.gate? n).map Gate.cycles).getD 0

theorem Built.cyclesOf_eq (h : Built c) {n : Nat} {g : Gate} (hg : c.gate? n = some g) :
    c.cyclesOf n = max g.cycles 1 := by
  rw [cyclesOf, hg, Nat.max_eq_left (h.cycles_pos hg)]
  rfl

def totalCycles (c : Circuit) : Nat := (c.nodes.map fun node => node.gate.cycles).sum

theorem sum_cyclesOf_range (c : Circuit) : ((List.range c.size).map c.cyclesOf).sum = c.totalCycles := by
  unfold totalCycles
  congr 1
  refine List.ext_getElem (by simp [size]) fun i hi hi' => ?_
  simp only [List.length_map] at hi'
  simp [cyclesOf, gate?, node?, List.getElem?_eq_getElem hi']

/-- Different gates take no more cycles than all together. -/
theorem sum_cyclesOf_le {nodes : List Nat} (hnodup : nodes.Nodup)
    (hlt : ∀ n ∈ nodes, n < c.size) : (nodes.map c.cyclesOf).sum ≤ c.totalCycles := by
  rw [← sum_cyclesOf_range]
  obtain ⟨l, hperm, hsub⟩ := hnodup.subperm fun n hn => List.mem_range.2 (hlt n hn)
  rw [← (hperm.map c.cyclesOf).sum_eq]
  exact (hsub.map c.cyclesOf).sum_le_sum fun _ _ => Nat.zero_le _

end SurfaceFabric.Circuit
