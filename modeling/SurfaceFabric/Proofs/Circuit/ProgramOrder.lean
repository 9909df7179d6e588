import SurfaceFabric.Proofs.Circuit.Sharing

/-!
A circuit as a function of the gates that were accepted. Gates are submitted one after the other, and one
that is not accepted leaves no trace. What is kept up step by step (the last use of each symbol, the layer
of each node, the symbols seen) comes to what one would read off the whole list of gates.
-/

namespace SurfaceFabric

theorem pairwise_insertSorted {n : Nat} {l : List Nat} (h : l.Pairwise (· < ·)) :
    (insertSorted n l).Pairwise (· < ·) := by
  induction l with
  | nil => simp [insertSorted]
  | cons m rest ih =>
      obtain ⟨hfirst, hrest⟩ := List.pairwise_cons.1 h
      rw [insertSorted]
      split
      · next hlt =>
          refine List.pairwise_cons.2 ⟨?_, h⟩
          intro k hk
          obtain rfl | hk := List.mem_cons.1 hk
          · exact hlt
          · exact hlt.trans (hfirst k hk)
      split
      · exact h
      · next hge hne =>
          refine List.pairwise_cons.2 ⟨?_, ih hrest⟩
          intro k hk
          obtain rfl | hk := mem_insertSorted.1 hk
          · omega
          · exact hfirst k hk

theorem pairwise_sortedSet (l : List Nat) : (sortedSet l).Pairwise (· < ·) := by
  induction l with
  | nil => exact .nil
  | cons n l ih => exact pairwise_insertSorted ih

/-- One member of a list has appeared before another has. -/
def SeenBefore {α : Type} (l : List α) (a b : α) : Prop :=
  ∃ before after, l = before ++ after ∧ a ∈ before ∧ b ∉ before

theorem SeenBefore.append {α : Type} {l : List α} {a b : α} (h : SeenBefore l a b) (later : List α) :
    SeenBefore (l ++ later) a b := by
  obtain ⟨before, after, rfl, ha, hb⟩ := h
  exact ⟨before, after ++ later, List.append_assoc .., ha, hb⟩

/-- The members of a list, each once, in the order in which they first appear. -/
structure FirstSeen {α : Type} (l found : List α) : Prop where
  mem_iff : ∀ a, a ∈ found ↔ a ∈ l
  order : found.Pairwise (SeenBefore l)

namespace FirstSeen

variable {α : Type} {l found : List α} {a : α}

theorem nil : FirstSeen ([] : List α) [] := ⟨by simp, .nil⟩

theorem again (h : FirstSeen l found) (ha : a ∈ l) : FirstSeen (l ++ [a]) found := by
  refine ⟨fun b => ?_, h.order.imp fun hbefore => hbefore.append [a]⟩
  rw [h.mem_iff, List.mem_append, List.mem_singleton]
  exact ⟨.inl, fun hb => hb.elim id fun hb => hb ▸ ha⟩

theorem new (h : FirstSeen l found) (ha : a ∉ l) : FirstSeen (l ++ [a]) (found ++ [a]) := by
  refine ⟨fun b => by simp [h.mem_iff], List.pairwise_append.2 ⟨?_, by simp, ?_⟩⟩
  · exact h.order.imp fun hbefore => hbefore.append [a]
  · intro b hb c hc
    rw [List.mem_singleton.1 hc]
    exact ⟨l, [a], rfl, (h.mem_iff b).1 hb, ha⟩

/-- One more appearance counts only if it is the first. -/
theorem snoc [DecidableEq α] (h : FirstSeen l found) (a : α) :
    FirstSeen (l ++ [a]) (if a ∈ found then found else found ++ [a]) := by
  split
  · next ha => exact h.again ((h.mem_iff a).1 ha)
  · next ha => exact h.new fun hmem => ha ((h.mem_iff a).2 hmem)

theorem foldl [DecidableEq α] (h : FirstSeen l found) (rest : List α) :
    FirstSeen (l ++ rest) (rest.foldl (fun found a => if a ∈ found then found else found ++ [a]) found) := by
  induction rest generalizing l found with
  | nil => simpa using h
  | cons a rest ih => simpa using ih (h.snoc a)

theorem filter (h : FirstSeen l found) (p : α → Bool) : FirstSeen (l.filter p) (found.filter p) := by
  refine ⟨fun b => by simp [h.mem_iff], (h.order.filter p).imp_of_mem ?_⟩
  rintro b c hb - ⟨before, after, rfl, hbefore, hc⟩
  refine ⟨before.filter p, after.filter p, List.filter_append .., ?_, ?_⟩
  · exact List.mem_filter.2 ⟨hbefore, (List.mem_filter.1 hb).2⟩
  · exact fun hmem => hc (List.mem_filter.1 hmem).1

end FirstSeen

namespace Circuit

variable {c : Circuit} {g : Gate} {gates : List Gate} {n p : Nat} {s : Symbol}

theorem firsts_snoc (l : List String) (a : String) :
    firsts (l ++ [a]) = if a ∈ firsts l then firsts l else firsts l ++ [a] := by
  rw [firsts, List.foldl_append]
  rfl

/-- Uses that name the symbols of a list of operands and their templates in order of first appearance. -/
structure Records (operands : List Symbol) (uses : List (Symbol × Nat)) : Prop where
  symbols : FirstSeen operands (uses.map Prod.fst)
  templates : FirstSeen (operands.filterMap Symbol.template?)
    (firsts ((uses.map Prod.fst).filterMap Symbol.template?))

theorem Records.noteUse {operands : List Symbol} {uses : List (Symbol × Nat)} (h : Records operands uses)
    (n : Nat) (s : Symbol) : Records (operands ++ [s]) (noteUse n uses s) := by
  constructor
  · rw [map_fst_noteUse]
    exact h.symbols.snoc s
  · rw [map_fst_noteUse, List.filterMap_append]
    split
    · next hs =>
        -- a symbol that was seen brings no new template
        cases htemplate : s.template? with
        | none => simpa [htemplate] using h.templates
        | some template =>
            simp only [List.filterMap_cons, htemplate, List.filterMap_nil]
            apply h.templates.again
            exact List.mem_filterMap.2 ⟨s, (h.symbols.mem_iff s).1 hs, htemplate⟩
    · cases htemplate : s.template? with
      | none => simpa [htemplate] using h.templates
      | some template =>
          simp only [List.filterMap_append, List.filterMap_cons, htemplate, List.filterMap_nil, firsts_snoc]
          exact h.templates.snoc template

theorem Records.noteUses {operands : List Symbol} {uses : List (Symbol × Nat)} (h : Records operands uses)
    (n : Nat) (later : List Symbol) :
    Records (operands ++ later) (later.foldl (SurfaceFabric.noteUse n) uses) := by
  induction later generalizing operands uses with
  | nil => simpa using h
  | cons s rest ih =>
      rw [List.append_cons]
      exact ih (h.noteUse n s)

theorem Built.records (h : Built c) :
    Records ((c.nodes.map Node.gate).flatMap Gate.operands) c.lastUses := by
  induction h with
  | empty => exact ⟨.nil, .nil⟩
  | @add c c' g _ hadd ih =>
      obtain ⟨-, rfl⟩ := add_eq_ok_iff.1 hadd
      have hoperands : ((c.append g).nodes.map Node.gate).flatMap Gate.operands =
          (c.nodes.map Node.gate).flatMap Gate.operands ++ g.operands := by
        simp [append]
      rw [hoperands]
      exact ih.noteUses c.size g.operands

/-- The last use of a symbol is the greatest node on it. -/
theorem Built.lastUse?_eq_some_iff (h : Built c) :
    c.lastUse? s = some p ↔ c.ActsOn p s ∧ ∀ k, p < k → ¬c.ActsOn k s := by
  constructor
  · intro hp
    have hused : s ∈ c.lastUses.map Prod.fst := by
      obtain ⟨before, after, huses, -⟩ := List.lookup_eq_some_iff.1 hp
      simp [huses]
    obtain ⟨n, g, hg, hs⟩ := (h.uses.mem_iff s).1 hused
    obtain ⟨_, hlast, -, hacts⟩ := h.exists_lastUse ⟨g, hg, hs⟩
    obtain rfl := Option.some.inj (hp.symm.trans hlast)
    refine ⟨hacts, fun k hk hlater => ?_⟩
    obtain ⟨_, hlast', hle, -⟩ := h.exists_lastUse hlater
    obtain rfl := Option.some.inj (hp.symm.trans hlast')
    omega
  · rintro ⟨hacts, hlast⟩
    obtain ⟨k, hk, hle, hlater⟩ := h.exists_lastUse hacts
    obtain rfl | hlt := Nat.eq_or_lt_of_le hle
    · exact hk
    · exact absurd hlater (hlast k hlt)

theorem precedes_append (hn : n ≤ c.size) : (c.append g).Precedes s p n ↔ c.Precedes s p n := by
  have hold {k : Nat} (hk : k < c.size) : (c.append g).ActsOn k s ↔ c.ActsOn k s := by
    rw [actsOn_append]
    simp [hk.ne]
  constructor
  · rintro ⟨hlt, hacts, hlast⟩
    refine ⟨hlt, (hold (by omega)).1 hacts, fun k hp hk hacts => ?_⟩
    exact hlast k hp hk ((hold (by omega)).2 hacts)
  · rintro ⟨hlt, hacts, hlast⟩
    refine ⟨hlt, (hold (by omega)).2 hacts, fun k hp hk hacts => ?_⟩
    exact hlast k hp hk ((hold (by omega)).1 hacts)

/-- A gate depends on the gates before it on its operands, and on no others. -/
theorem Built.mem_dependencies_iff (h : Built c) :
    p ∈ c.dependencies n ↔ ∃ s, c.ActsOn n s ∧ c.Precedes s p n := by
  refine ⟨fun hp => ?_, fun ⟨s, hn, hp⟩ => h.precedes_mem hp hn⟩
  induction h with
  | empty => simp [dependencies, node?, Circuit.empty] at hp
  | @add c c' g hbuilt hadd ih =>
      obtain ⟨-, rfl⟩ := add_eq_ok_iff.1 hadd
      rw [dependencies, node?_append] at hp
      split at hp
      · next hn =>
          rw [Option.map_some, Option.getD_some, dependenciesOf, mem_sortedSet] at hp
          obtain ⟨s, hs, huse⟩ := List.mem_filterMap.1 hp
          obtain ⟨hacts, hlast⟩ := hbuilt.lastUse?_eq_some_iff.1 huse
          refine ⟨s, actsOn_append.2 (.inl ⟨hn, hs⟩), (precedes_append hn.le).2 ⟨?_, hacts, ?_⟩⟩
          · rw [hn]
            exact hacts.lt_size
          · intro k hp _
            exact hlast k hp
      · next hn =>
          obtain ⟨s, hacts, hprecedes⟩ := ih hp
          refine ⟨s, actsOn_append.2 (.inr ⟨hn, hacts⟩), ?_⟩
          exact (precedes_append hacts.lt_size.le).2 hprecedes

theorem Built.dependencies_ascending (h : Built c) (n : Nat) : (c.dependencies n).Pairwise (· < ·) := by
  induction h with
  | empty => simp [dependencies, node?, Circuit.empty]
  | @add c c' g _ hadd ih =>
      obtain ⟨-, rfl⟩ := add_eq_ok_iff.1 hadd
      rw [dependencies, node?_append]
      split
      · exact pairwise_sortedSet _
      · exact ih

theorem mem_dependents {m : Nat} : m ∈ c.dependents n ↔ n ∈ c.dependencies m := by
  simp only [dependents, List.mem_filter, List.mem_range, decide_eq_true_eq, and_iff_right_iff_imp]
  intro hn
  cases hnode : c.node? m with
  | none => simp [dependencies, hnode] at hn
  | some node => exact node?_lt hnode

theorem layer_eq_ok_iff {l : Nat} : c.layer n = .ok l ↔ ∃ node, c.node? n = some node ∧ node.layer = l := by
  unfold layer
  cases c.node? n with
  | none => simp
  | some node => simp

theorem exists_layer (hn : n < c.size) : ∃ l, c.layer n = .ok l :=
  ⟨_, layer_eq_ok_iff.2 ⟨c.nodes[n], List.getElem?_eq_getElem hn, rfl⟩⟩

/-- The layer of a node by those of its dependencies. -/
theorem Built.layer_eq_max? (h : Built c) {l : Nat} (hl : c.layer n = .ok l) :
    l = ((c.dependencies n).map fun p => ((c.node? p).map Node.layer).getD 0 + 1).max?.getD 0 := by
  obtain ⟨node, hnode, rfl⟩ := layer_eq_ok_iff.1 hl
  rw [h.layer_eq hnode, dependencies, hnode]
  rfl

theorem Built.layer_root (h : Built c) (hn : n < c.size) (hroot : c.dependencies n = []) :
    c.layer n = .ok 0 := by
  obtain ⟨l, hl⟩ := exists_layer hn
  have hmax := h.layer_eq_max? hl
  rw [hroot] at hmax
  rw [hl, hmax]
  rfl

/-- A node with dependencies lies one layer below the deepest of them. -/
theorem Built.exists_deepest (h : Built c) (hn : n < c.size) (hsome : c.dependencies n ≠ []) :
    ∃ p ∈ c.dependencies n, ∃ l, c.layer p = .ok l ∧ c.layer n = .ok (l + 1) ∧
      ∀ q ∈ c.dependencies n, ∃ k ≤ l, c.layer q = .ok k := by
  obtain ⟨depth, hdepth⟩ := exists_layer hn
  have hmax := h.layer_eq_max? hdepth
  have hlayer (q : Nat) (hq : q ∈ c.dependencies n) :
      ∃ node, c.node? q = some node ∧ node.layer + 1 ≤ depth := by
    have hlt : q < c.size := (h.lt_of_mem_dependencies hq).trans hn
    refine ⟨c.nodes[q], List.getElem?_eq_getElem hlt, ?_⟩
    rw [hmax]
    refine List.le_max?_getD_of_mem (List.mem_map.2 ⟨q, hq, ?_⟩)
    simp [node?, List.getElem?_eq_getElem hlt]
  have hmem := max?_getD_mem (l := (c.dependencies n).map fun p => ((c.node? p).map Node.layer).getD 0 + 1)
    (by simpa using hsome)
  rw [← hmax] at hmem
  obtain ⟨p, hp, heq⟩ := List.mem_map.1 hmem
  obtain ⟨deepest, hdeepest, -⟩ := hlayer p hp
  rw [hdeepest, Option.map_some, Option.getD_some] at heq
  refine ⟨p, hp, deepest.layer, layer_eq_ok_iff.2 ⟨deepest, hdeepest, rfl⟩, by rw [hdepth, heq], ?_⟩
  intro q hq
  obtain ⟨node, hnode, hle⟩ := hlayer q hq
  exact ⟨node.layer, by omega, layer_eq_ok_iff.2 ⟨node, hnode, rfl⟩⟩

theorem lt_depth {l : Nat} (h : c.layer n = .ok l) : l < c.depth := by
  obtain ⟨node, hnode, rfl⟩ := layer_eq_ok_iff.1 h
  exact List.le_max?_getD_of_mem (List.mem_map.2 ⟨node, List.mem_of_getElem? hnode, rfl⟩)

theorem mem_layers {l : Nat} : n ∈ c.layers[l]?.getD [] ↔ c.layer n = .ok l := by
  have hnode : (n < c.size ∧ (c.node? n).map Node.layer = some l) ↔ c.layer n = .ok l := by
    rw [layer_eq_ok_iff, Option.map_eq_some_iff]
    exact and_iff_right_of_imp fun ⟨node, hnode, _⟩ => node?_lt hnode
  rw [← hnode]
  by_cases hl : l < c.depth
  · simp [layers, hl]
  · simp only [layers, List.getElem?_map, List.getElem?_eq_none (l := List.range c.depth) (by simpa using hl),
      Option.map_none, Option.getD_none, List.not_mem_nil, false_iff]
    exact fun h => hl (lt_depth (hnode.1 h))

/-- Above a node there is one in every layer, as each node hangs on one in the layer before. -/
theorem Built.exists_layer_above (h : Built c) {l depth : Nat} (hn : c.layer n = .ok depth) (hl : l ≤ depth) :
    ∃ m, c.layer m = .ok l := by
  induction n using Nat.strong_induction_on generalizing depth with
  | _ n ih =>
      obtain rfl | hlt := Nat.eq_or_lt_of_le hl
      · exact ⟨n, hn⟩
      · have hsize : n < c.size := by
          obtain ⟨node, hnode, -⟩ := layer_eq_ok_iff.1 hn
          exact node?_lt hnode
        have hsome : c.dependencies n ≠ [] := by
          intro hroot
          rw [h.layer_root hsize hroot] at hn
          cases hn
          omega
        obtain ⟨p, hp, k, hk, hnext, -⟩ := h.exists_deepest hsize hsome
        rw [hn] at hnext
        cases hnext
        exact ih p (h.lt_of_mem_dependencies hp) hk (by omega)

theorem Built.layers_ne_nil (h : Built c) {layer : List Nat} (hlayer : layer ∈ c.layers) : layer ≠ [] := by
  obtain ⟨l, hl⟩ := List.mem_iff_getElem?.1 hlayer
  have hlt : l < c.depth := by
    obtain ⟨hlt, -⟩ := List.getElem?_eq_some_iff.1 hl
    simpa [layers] using hlt
  have hsome : c.nodes.map (fun node => node.layer + 1) ≠ [] := by
    intro hnil
    rw [depth, hnil] at hlt
    exact Nat.not_lt_zero l hlt
  obtain ⟨node, hnode, hdepth⟩ := List.mem_map.1 (max?_getD_mem hsome)
  obtain ⟨n, hn⟩ := List.mem_iff_getElem?.1 hnode
  have hdeepest : c.layer n = .ok node.layer := layer_eq_ok_iff.2 ⟨node, hn, rfl⟩
  obtain ⟨m, hm⟩ := h.exists_layer_above hdeepest (Nat.lt_succ_iff.1 (hlt.trans_eq hdepth.symm))
  have hmem := mem_layers.2 hm
  rw [hl, Option.getD_some] at hmem
  exact List.ne_nil_of_mem hmem

theorem layers_ascending {layer : List Nat} (hlayer : layer ∈ c.layers) : layer.Pairwise (· < ·) := by
  obtain ⟨l, -, rfl⟩ := List.mem_map.1 hlayer
  exact List.pairwise_lt_range.filter _

/-- Submits a gate: it becomes the next node, or the circuit stays as it is. -/
def submit (c : Circuit) (g : Gate) : Circuit × Except CircuitError Nat :=
  match c.add g with
  | .ok c' => (c', .ok c.size)
  | .error e => (c, .error e)

def submitAll (c : Circuit) : List Gate → Circuit × List (Except CircuitError Nat)
  | [] => (c, [])
  | g :: rest =>
      let (c, reply) := c.submit g
      let (c, replies) := c.submitAll rest
      (c, reply :: replies)

def accepted (gates : List Gate) (replies : List (Except CircuitError Nat)) : List Gate :=
  ((gates.zip replies).filter fun x => x.2.toBool).map Prod.fst

def refusal? : Except CircuitError Nat → Option CircuitError
  | .ok _ => none
  | .error e => some e

theorem accepted_ok (g : Gate) (gates : List Gate) (n : Nat) (replies : List (Except CircuitError Nat)) :
    accepted (g :: gates) (.ok n :: replies) = g :: accepted gates replies :=
  rfl

theorem submit_cases (c : Circuit) (g : Gate) :
    objection? g = none ∧ c.submit g = (c.append g, .ok c.size) ∨
      ∃ e, objection? g = some e ∧ c.submit g = (c, .error e) := by
  unfold submit add
  cases hobjection : objection? g with
  | none => exact .inl ⟨rfl, rfl⟩
  | some e => exact .inr ⟨e, rfl, rfl⟩

/-- What comes of submitting gates is a circuit of those with nothing to object to, which are numbered in order. -/
structure Submitted (c : Circuit) (gates : List Gate) (result : Circuit × List (Except CircuitError Nat)) :
    Prop where
  built : c.Built → result.1.Built
  gates_eq : result.1.nodes.map Node.gate = c.nodes.map Node.gate ++ accepted gates result.2
  numbered : result.2.filter Except.toBool =
    (List.range' c.size (accepted gates result.2).length).map .ok
  again : c.submitAll (accepted gates result.2) = (result.1, result.2.filter Except.toBool)
  refusals : result.2.map refusal? = gates.map objection?

theorem submitted (c : Circuit) (gates : List Gate) : c.Submitted gates (c.submitAll gates) := by
  induction gates generalizing c with
  | nil => exact ⟨id, by simp [submitAll, accepted], rfl, rfl, rfl⟩
  | cons g rest ih =>
      obtain ⟨hobjection, hsubmit⟩ | ⟨e, hobjection, hsubmit⟩ := submit_cases c g
      · obtain ⟨hbuilt, hgates, hnumbered, hagain, hrefusals⟩ := ih (c.append g)
        simp only [submitAll, hsubmit]
        refine ⟨fun h => hbuilt (h.extend hobjection), ?_, ?_, ?_, ?_⟩
        · rw [hgates, accepted_ok]
          simp [append]
        · show Except.ok c.size :: List.filter Except.toBool _ = _
          rw [hnumbered, accepted_ok, List.length_cons, List.range'_succ, size_append, List.map_cons]
        · rw [accepted_ok]
          simp only [submitAll, hsubmit, hagain]
          rfl
        · rw [List.map_cons, List.map_cons, hrefusals, hobjection]
          rfl
      · obtain ⟨hbuilt, hgates, hnumbered, hagain, hrefusals⟩ := ih c
        simp only [submitAll, hsubmit]
        refine ⟨hbuilt, hgates, hnumbered, hagain, ?_⟩
        rw [List.map_cons, List.map_cons, hrefusals, hobjection]
        rfl

structure ProgramOrder (c : Circuit) (gates : List Gate) : Prop where
  gate?_eq : ∀ n, c.gate? n = gates[n]?
  mem_dependencies : ∀ n p, p ∈ c.dependencies n ↔ ∃ s, c.ActsOn n s ∧ c.Precedes s p n
  dependencies_ascending : ∀ n, (c.dependencies n).Pairwise (· < ·)
  mem_dependents : ∀ n m, m ∈ c.dependents n ↔ n ∈ c.dependencies m
  dependents_ascending : ∀ n, (c.dependents n).Pairwise (· < ·)
  layer_root : ∀ n < gates.length, c.dependencies n = [] → c.layer n = .ok 0
  layer_next : ∀ n < gates.length, c.dependencies n ≠ [] →
    ∃ p ∈ c.dependencies n, ∃ l, c.layer p = .ok l ∧ c.layer n = .ok (l + 1) ∧
      ∀ q ∈ c.dependencies n, ∃ k ≤ l, c.layer q = .ok k
  mem_layers : ∀ n l, n ∈ c.layers[l]?.getD [] ↔ c.layer n = .ok l
  layers_ascending : ∀ layer ∈ c.layers, layer ≠ [] ∧ layer.Pairwise (· < ·)
  symbols : FirstSeen ((gates.flatMap Gate.operands).filter fun s => !s.isFactory) c.symbols
  templates : FirstSeen ((gates.flatMap Gate.operands).filterMap Symbol.template?) c.templates

theorem Built.programOrder (h : Built c) : c.ProgramOrder (c.nodes.map Node.gate) where
  gate?_eq n := (List.getElem?_map ..).symm
  mem_dependencies _ _ := h.mem_dependencies_iff
  dependencies_ascending := h.dependencies_ascending
  mem_dependents _ _ := mem_dependents
  dependents_ascending _ := List.pairwise_lt_range.filter _
  layer_root _ hn := h.layer_root (by rwa [List.length_map] at hn)
  layer_next _ hn := h.exists_deepest (by rwa [List.length_map] at hn)
  mem_layers _ _ := mem_layers
  layers_ascending _ hlayer := ⟨h.layers_ne_nil hlayer, layers_ascending hlayer⟩
  symbols := h.records.symbols.filter _
  templates := by
    have htemplates := h.records.templates
    rwa [List.filterMap_map] at htemplates

end Circuit

/-- Whatever gates are submitted, the circuit is the dependency graph of those accepted. It is the one that
comes of submitting these alone, and they are numbered as they would be then. A gate is refused just for what there
is to object to it. -/
theorem submitAll_programOrder (gates : List Gate) :
    let (c, replies) := Circuit.empty.submitAll gates
    let accepted := Circuit.accepted gates replies
    c.ProgramOrder accepted ∧
      Circuit.empty.submitAll accepted = (c, replies.filter Except.toBool) ∧
      replies.filter Except.toBool = (List.range accepted.length).map .ok ∧
      replies.map Circuit.refusal? = gates.map Circuit.objection? := by
  obtain ⟨hbuilt, hgates, hnumbered, hagain, hrefusals⟩ := Circuit.submitted .empty gates
  refine ⟨?_, hagain, ?_, hrefusals⟩
  · have horder := (hbuilt .empty).programOrder
    rwa [hgates] at horder
  · rw [List.range_eq_range']
    exact hnumbered

end SurfaceFabric
