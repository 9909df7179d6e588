import Mathlib.Data.List.Chain
import SurfaceFabric.Circuit.Slack
import SurfaceFabric.Proofs.Circuit.Interaction
import SurfaceFabric.Proofs.Outcome

/-!
Slack by paths. The layer of a gate is how many gates a path can have before it, and its tail how many a path
can have after it. A path through the gate falls into two such parts and any two parts make a path, so the
longest one through it has as many gates as its layer and its tail come to, and one more. Slack is what this
leaves of the depth, and the depth is what the longest path of all has.
-/

namespace SurfaceFabric

namespace Circuit

variable {c : Circuit} {n p : Nat} {node : Node} {front back path : List Nat}

structure Path (c : Circuit) (path : List Nat) : Prop where
  lt_size : ∀ n ∈ path, n < c.size
  chain : path.IsChain c.Edge

structure LongestPath (c : Circuit) (path : List Nat) : Prop where
  isPath : c.Path path
  longest : ∀ other, c.Path other → other.length ≤ path.length

structure LongestThrough (c : Circuit) (n longest : Nat) : Prop where
  reached : ∃ path, c.Path path ∧ n ∈ path ∧ path.length = longest
  length_le : ∀ path, c.Path path → n ∈ path → path.length ≤ longest

theorem path_singleton (hn : n < c.size) : c.Path [n] := ⟨by simpa using hn, .singleton n⟩

/-- A path parts at each of its gates. -/
theorem path_split : c.Path (front ++ n :: back) ↔ c.Path (front ++ [n]) ∧ c.Path (n :: back) := by
  constructor
  · rintro ⟨hlt, hchain⟩
    obtain ⟨hfront, hback⟩ := List.isChain_split.1 hchain
    refine ⟨⟨fun k hk => hlt k ?_, hfront⟩, fun k hk => hlt k (List.mem_append_right _ hk), hback⟩
    rcases List.mem_append.1 hk with hk | hk
    · exact List.mem_append_left _ hk
    · rw [List.mem_singleton.1 hk]
      exact List.mem_append_right _ List.mem_cons_self
  · rintro ⟨hfront, hback⟩
    refine ⟨fun k hk => ?_, List.isChain_split.2 ⟨hfront.chain, hback.chain⟩⟩
    rcases List.mem_append.1 hk with hk | hk
    · exact hfront.lt_size k (List.mem_append_left _ hk)
    · exact hback.lt_size k hk

theorem path_cons_cons : c.Path (p :: n :: back) ↔ p < c.size ∧ c.Edge p n ∧ c.Path (n :: back) := by
  constructor
  · rintro ⟨hlt, hchain⟩
    obtain ⟨hedge, hback⟩ := List.isChain_cons_cons.1 hchain
    exact ⟨hlt p List.mem_cons_self, hedge, fun k hk => hlt k (List.mem_cons_of_mem _ hk), hback⟩
  · rintro ⟨hp, hedge, hback⟩
    refine ⟨fun k hk => ?_, List.isChain_cons_cons.2 ⟨hedge, hback.chain⟩⟩
    rcases List.mem_cons.1 hk with rfl | hk
    · exact hp
    · exact hback.lt_size k hk

theorem Edge.lt_size (h : c.Edge p n) : n < c.size := (List.mem_filter.1 (mem_dependents.2 h)).1 |> List.mem_range.1

theorem Built.layer_lt_of_edge (h : Built c) (hedge : c.Edge p n) {k l : Nat} (hp : c.layer p = .ok k)
    (hn : c.layer n = .ok l) : k < l := by
  obtain ⟨earlier, hearlier, rfl⟩ := layer_eq_ok_iff.1 hp
  obtain ⟨later, hlater, rfl⟩ := layer_eq_ok_iff.1 hn
  refine h.layer_lt hlater ?_ hearlier
  rwa [Edge, dependencies, hlater] at hedge

/-- A path has no more gates before its last one than this one's layer. -/
theorem Built.length_le_layer (h : Built c) {l : Nat} (hn : c.layer n = .ok l) (hpath : c.Path (front ++ [n])) :
    front.length ≤ l := by
  induction front using List.reverseRecOn generalizing n l with
  | nil => exact Nat.zero_le l
  | append_singleton front p ih =>
      rw [List.append_assoc, List.singleton_append, path_split] at hpath
      obtain ⟨hfront, hlast⟩ := hpath
      obtain ⟨hp, hedge, -⟩ := path_cons_cons.1 hlast
      obtain ⟨k, hk⟩ := exists_layer hp
      have hle := ih hk hfront
      have hlt := h.layer_lt_of_edge hedge hk hn
      rw [List.length_append, List.length_singleton]
      omega

theorem Built.exists_path_to (h : Built c) {l : Nat} (hn : c.layer n = .ok l) :
    ∃ front, c.Path (front ++ [n]) ∧ front.length = l := by
  induction n using Nat.strong_induction_on generalizing l with
  | _ n ih =>
      have hlt : n < c.size := by
        obtain ⟨node, hnode, -⟩ := layer_eq_ok_iff.1 hn
        exact node?_lt hnode
      by_cases hroot : c.dependencies n = []
      · rw [h.layer_root hlt hroot] at hn
        cases hn
        exact ⟨[], path_singleton hlt, rfl⟩
      · -- the deepest gate it waits for lies one layer above
        obtain ⟨p, hp, k, hk, hnext, -⟩ := h.exists_deepest hlt hroot
        obtain rfl : k + 1 = l := Except.ok.inj (hnext.symm.trans hn)
        obtain ⟨front, hfront, rfl⟩ := ih p (h.lt_of_mem_dependencies hp) hk
        refine ⟨front ++ [p], ?_, by simp⟩
        rw [List.append_assoc, List.singleton_append, path_split]
        refine ⟨hfront, path_cons_cons.2 ⟨?_, hp, path_singleton hlt⟩⟩
        exact (h.lt_of_mem_dependencies hp).trans hlt

/-- The tail of a node is one more than the longest among those that wait for it, or nothing if none does. -/
theorem tailsFrom_spec {n i tail : Nat} {nodes : List Node} (h : (tailsFrom n nodes)[i]? = some tail) :
    (∀ j later below, i < j → nodes[j]? = some later → (tailsFrom n nodes)[j]? = some below →
      n + i ∈ later.dependencies → below < tail) ∧
    (tail = 0 ∨ ∃ j later below, i < j ∧ nodes[j]? = some later ∧ (tailsFrom n nodes)[j]? = some below ∧
      n + i ∈ later.dependencies ∧ tail = below + 1) := by
  induction nodes generalizing n i with
  | nil => cases h
  | cons first rest ih =>
      rw [tailsFrom] at h ⊢
      cases i with
      | succ i =>
          obtain ⟨hall, hsome⟩ := ih h
          rw [show n + 1 + i = n + (i + 1) by omega] at hall hsome
          refine ⟨fun j later below hj hlater hbelow => ?_, hsome.imp_right ?_⟩
          · obtain ⟨j, rfl⟩ := Nat.exists_eq_add_one_of_ne_zero (Nat.ne_zero_of_lt hj)
            exact hall j later below (by omega) hlater hbelow
          · rintro ⟨j, later, below, hj, hrest⟩
            exact ⟨j + 1, later, below, by omega, hrest⟩
      | zero =>
          rw [List.getElem?_cons_zero, Option.some.injEq] at h
          subst h
          rw [Nat.add_zero]
          refine ⟨fun j later below hj hlater hbelow hdepends => ?_, ?_⟩
          · obtain ⟨j, rfl⟩ := Nat.exists_eq_add_one_of_ne_zero (Nat.ne_zero_of_lt hj)
            rw [List.getElem?_cons_succ] at hlater hbelow
            have hzip := List.mem_of_getElem? (List.getElem?_zip_eq_some (z := (later, below)).2 ⟨hlater, hbelow⟩)
            exact Nat.lt_of_succ_le (List.le_max?_getD_of_mem (List.mem_filterMap.2 ⟨_, hzip, if_pos hdepends⟩))
          · refine Classical.or_iff_not_imp_left.2 fun hzero => ?_
            have hlongest := max?_getD_mem fun hnone => hzero (congrArg (fun longer => longer.max?.getD 0) hnone)
            obtain ⟨⟨later, below⟩, hzip, hstep⟩ := List.mem_filterMap.1 hlongest
            obtain ⟨j, hj⟩ := List.mem_iff_getElem?.1 hzip
            obtain ⟨hlater, hbelow⟩ := List.getElem?_zip_eq_some.1 hj
            dsimp only at hstep
            split at hstep
            · next hdepends =>
                exact ⟨j + 1, later, below, Nat.succ_pos j, hlater, hbelow, hdepends, (Option.some.inj hstep).symm⟩
            · cases hstep

/-- How many gates a path can have after one. -/
structure LongestAfter (c : Circuit) (n tail : Nat) : Prop where
  reached : ∃ back, c.Path (n :: back) ∧ back.length = tail
  length_le : ∀ back, c.Path (n :: back) → back.length ≤ tail

theorem exists_tail (hn : n < c.size) : ∃ tail, c.tails[n]? = some tail :=
  ⟨_, List.getElem?_eq_getElem (by simpa [tails, size] using hn)⟩

theorem Built.longestAfter (h : Built c) {tail : Nat} (htail : c.tails[n]? = some tail) :
    c.LongestAfter n tail := by
  -- whatever waits for a gate has a greater number
  induction hleft : c.size - n using Nat.strong_induction_on generalizing n tail with
  | _ left ih =>
      have hn : n < c.size := by simpa [tails, size] using (List.getElem?_eq_some_iff.1 htail).1
      have hedge {m : Nat} {later : Node} (hm : c.nodes[m]? = some later) :
          0 + n ∈ later.dependencies ↔ c.Edge n m := by
        rw [Nat.zero_add, Edge, dependencies, node?, hm]
        rfl
      obtain ⟨hall, hsome⟩ := tailsFrom_spec htail
      refine ⟨?_, fun back hpath => ?_⟩
      · obtain rfl | ⟨m, later, below, hlt, hlater, hbelow, hdepends, rfl⟩ := hsome
        · exact ⟨[], path_singleton hn, rfl⟩
        · obtain ⟨back, hback, rfl⟩ := (ih _ (by omega) hbelow rfl).reached
          exact ⟨m :: back, path_cons_cons.2 ⟨hn, (hedge hlater).1 hdepends, hback⟩, rfl⟩
      · cases back with
        | nil => exact Nat.zero_le tail
        | cons m back =>
            obtain ⟨-, hdepends, hback⟩ := path_cons_cons.1 hpath
            have hm : m < c.size := hback.lt_size m List.mem_cons_self
            have hlt := h.lt_of_mem_dependencies hdepends
            have hlater : c.nodes[m]? = some c.nodes[m] := List.getElem?_eq_getElem hm
            obtain ⟨below, hbelow⟩ := exists_tail hm
            have hle := (ih _ (by omega) hbelow rfl).length_le back hback
            have hbelow_lt := hall m _ below hlt hlater hbelow ((hedge hlater).2 hdepends)
            rw [List.length_cons]
            omega

/-- A path through a gate is one to it followed by one from it. -/
theorem Built.longestThrough (h : Built c) {l tail : Nat} (hl : c.layer n = .ok l) (htail : c.tails[n]? = some tail) :
    c.LongestThrough n (l + 1 + tail) := by
  have hafter := h.longestAfter htail
  constructor
  · obtain ⟨front, hfront, rfl⟩ := h.exists_path_to hl
    obtain ⟨back, hback, rfl⟩ := hafter.reached
    refine ⟨front ++ n :: back, path_split.2 ⟨hfront, hback⟩, by simp, ?_⟩
    rw [List.length_append, List.length_cons]
    omega
  · intro path hpath hn
    obtain ⟨front, back, rfl⟩ := List.append_of_mem hn
    obtain ⟨hfront, hback⟩ := path_split.1 hpath
    have := h.length_le_layer hl hfront
    have := hafter.length_le back hback
    rw [List.length_append, List.length_cons]
    omega

theorem Built.length_le_depth (h : Built c) (hpath : c.Path path) : path.length ≤ c.depth := by
  obtain rfl | ⟨front, n, rfl⟩ := List.eq_nil_or_concat' path
  · exact Nat.zero_le _
  · obtain ⟨l, hl⟩ := exists_layer (hpath.lt_size n (by simp))
    have := h.length_le_layer hl hpath
    have := lt_depth hl
    rw [List.length_append, List.length_singleton]
    omega

/-- The depth is reached by a path to a gate of the last layer. -/
theorem Built.exists_path_depth (h : Built c) : ∃ path, c.Path path ∧ path.length = c.depth := by
  by_cases hnone : c.nodes.map (fun node => node.layer + 1) = []
  · refine ⟨[], ⟨by simp, .nil⟩, ?_⟩
    rw [depth, hnone]
    rfl
  · obtain ⟨node, hnode, hdepth⟩ := List.mem_map.1 (max?_getD_mem hnone)
    obtain ⟨n, hn⟩ := List.mem_iff_getElem?.1 hnode
    obtain ⟨front, hfront, hlength⟩ := h.exists_path_to (layer_eq_ok_iff.2 ⟨node, hn, rfl⟩)
    refine ⟨front ++ [n], hfront, ?_⟩
    rw [List.length_append, List.length_singleton, hlength]
    exact hdepth

theorem Built.longestPath_iff (h : Built c) : c.LongestPath path ↔ c.Path path ∧ path.length = c.depth := by
  constructor
  · rintro ⟨hpath, hlongest⟩
    obtain ⟨other, hother, hlength⟩ := h.exists_path_depth
    exact ⟨hpath, Nat.le_antisymm (h.length_le_depth hpath) (hlength ▸ hlongest other hother)⟩
  · rintro ⟨hpath, hlength⟩
    exact ⟨hpath, fun other hother => hlength ▸ h.length_le_depth hother⟩

theorem Built.layer_add_tail_lt (h : Built c) {l tail : Nat} (hl : c.layer n = .ok l)
    (htail : c.tails[n]? = some tail) : l + tail < c.depth := by
  obtain ⟨path, hpath, -, hlength⟩ := (h.longestThrough hl htail).reached
  have := h.length_le_depth hpath
  omega

/-- Slacks are never negative. -/
theorem Built.exists_slacks (h : Built c) : ∃ slacks, c.slacks = .ok slacks := by
  refine exists_mapM_eq_ok ?_
  rintro ⟨node, tail⟩ hmem
  obtain ⟨n, hn⟩ := List.mem_iff_getElem?.1 hmem
  obtain ⟨hnode, htail⟩ := List.getElem?_zip_eq_some.1 hn
  have hlt := h.layer_add_tail_lt (layer_eq_ok_iff.2 ⟨node, hnode, rfl⟩) htail
  refine ⟨c.depth - 1 - node.layer - tail, ?_⟩
  simp only [slackOf, bind_eq_ok_iff, Word.sub_eq_ok_iff]
  exact ⟨_, ⟨by omega, rfl⟩, by omega, rfl⟩

theorem length_slacks {slacks : List Nat} (h : c.slacks = .ok slacks) : slacks.length = c.size := by
  rw [length_of_mapM h, List.length_zip, tails, tailsFrom_length, Nat.min_self, size]

/-- What is in the table of slacks. -/
theorem slacks_spec {slacks : List Nat} (h : c.slacks = .ok slacks) {k : Nat} (hk : slacks[n]? = some k) :
    ∃ l tail, c.layer n = .ok l ∧ c.tails[n]? = some tail ∧ k = c.depth - (l + 1 + tail) := by
  obtain ⟨⟨node, tail⟩, hzip, hslack⟩ := getElem?_of_mapM h hk
  obtain ⟨hnode, htail⟩ := List.getElem?_zip_eq_some.1 hzip
  refine ⟨node.layer, tail, layer_eq_ok_iff.2 ⟨node, hnode, rfl⟩, htail, ?_⟩
  simp only [slackOf, bind_eq_ok_iff, Word.sub_eq_ok_iff] at hslack
  obtain ⟨left, ⟨-, rfl⟩, -, rfl⟩ := hslack
  omega

/-- Slacks that say of each gate how far the paths through it stay behind the longest of all. -/
structure ExactSlacks (c : Circuit) (slacks : List Nat) : Prop where
  length_eq : slacks.length = c.size
  through : ∀ n k, slacks[n]? = some k →
    ∃ longest ≤ c.depth, c.LongestThrough n longest ∧ k = c.depth - longest
  critical : ∀ n k, slacks[n]? = some k → (k = 0 ↔ ∃ path, c.LongestPath path ∧ n ∈ path)
  room : ∀ n k l, slacks[n]? = some k → c.layer n = .ok l → l + k < c.depth
  along : ∀ p n i j k l, c.Edge p n → slacks[p]? = some i → slacks[n]? = some j → c.layer p = .ok k →
    c.layer n = .ok l → k < l ∧ i ≤ j + (l - k - 1)

theorem Built.through_spec (h : Built c) {slacks : List Nat} (hslacks : c.slacks = .ok slacks) {k : Nat}
    (hk : slacks[n]? = some k) : ∃ longest ≤ c.depth, c.LongestThrough n longest ∧ k = c.depth - longest := by
  obtain ⟨l, tail, hl, htail, rfl⟩ := slacks_spec hslacks hk
  have hlt := h.layer_add_tail_lt hl htail
  exact ⟨_, by omega, h.longestThrough hl htail, rfl⟩

/-- No slack is needed by just the gates on longest paths. -/
theorem Built.critical_iff (h : Built c) {slacks : List Nat} (hslacks : c.slacks = .ok slacks) {k : Nat}
    (hk : slacks[n]? = some k) : k = 0 ↔ ∃ path, c.LongestPath path ∧ n ∈ path := by
  obtain ⟨longest, hle, hthrough, rfl⟩ := h.through_spec hslacks hk
  constructor
  · intro hzero
    obtain ⟨path, hpath, hn, hlength⟩ := hthrough.reached
    exact ⟨path, h.longestPath_iff.2 ⟨hpath, by omega⟩, hn⟩
  · rintro ⟨path, hlongest, hn⟩
    obtain ⟨hpath, hlength⟩ := h.longestPath_iff.1 hlongest
    have := hthrough.length_le path hpath hn
    omega

/-- Along an edge the tail drops by one at least, as the longest path after the second gate may be taken. -/
theorem Built.tail_lt_of_edge (h : Built c) (hedge : c.Edge p n) {i j : Nat} (hp : c.tails[p]? = some i)
    (hn : c.tails[n]? = some j) : j < i := by
  obtain ⟨back, hback, rfl⟩ := (h.longestAfter hn).reached
  have hlt : p < c.size := (h.lt_of_mem_dependencies hedge).trans hedge.lt_size
  exact (h.longestAfter hp).length_le (n :: back) (path_cons_cons.2 ⟨hlt, hedge, hback⟩)

end Circuit

/-- The slacks of a circuit exist, and are how far the longest paths through its gates stay behind its depth. -/
theorem slacks_measure_paths {c : Circuit} (hbuilt : c.Built) :
    ∃ slacks, c.slacks = .ok slacks ∧ c.ExactSlacks slacks := by
  obtain ⟨slacks, hslacks⟩ := hbuilt.exists_slacks
  refine ⟨slacks, hslacks, Circuit.length_slacks hslacks, fun n k => hbuilt.through_spec hslacks,
    fun n k => hbuilt.critical_iff hslacks, ?_, ?_⟩
  · intro n k l hk hl
    obtain ⟨l', tail, hl', -, rfl⟩ := Circuit.slacks_spec hslacks hk
    obtain rfl := Except.ok.inj (hl'.symm.trans hl)
    have := Circuit.lt_depth hl
    omega
  · intro p n i j k l hedge hi hj hk hl
    obtain ⟨k', tail, hk', htail, rfl⟩ := Circuit.slacks_spec hslacks hi
    obtain ⟨l', tail', hl', htail', rfl⟩ := Circuit.slacks_spec hslacks hj
    obtain rfl := Except.ok.inj (hk'.symm.trans hk)
    obtain rfl := Except.ok.inj (hl'.symm.trans hl)
    have hlayers := hbuilt.layer_lt_of_edge hedge hk hl
    have htails := hbuilt.tail_lt_of_edge hedge htail htail'
    exact ⟨hlayers, by omega⟩

namespace Shortcut

/-- Of the six gates four lie on the longest path, and one can join it from aside. -/
def circuit : Circuit :=
  (((((Circuit.empty.append (.single "h" (.register "a") 1)).append
    (.joint "cx" [.register "a", .register "b"] 3)).append
    (.joint "cx" [.register "b", .register "c"] 1)).append (.single "h" (.register "d") 1)).append
    (.joint "cx" [.register "d", .register "c"] 2)).append (.single "h" (.register "a") 4)

theorem built_circuit : circuit.Built :=
  (((((Circuit.Built.empty.extend (by decide)).extend (by decide)).extend (by decide)).extend (by decide)).extend
    (by decide)).extend (by decide)

end Shortcut

theorem shortcut_slacks_measured : Shortcut.circuit.Built ∧ Shortcut.circuit.slacks = .ok [0, 0, 0, 2, 0, 1] ∧
    Shortcut.circuit.ExactSlacks [0, 0, 0, 2, 0, 1] := by
  have htable : Shortcut.circuit.slacks = .ok [0, 0, 0, 2, 0, 1] := by decide
  obtain ⟨slacks, hslacks, hexact⟩ := slacks_measure_paths Shortcut.built_circuit
  obtain rfl := Except.ok.inj (htable.symm.trans hslacks)
  exact ⟨Shortcut.built_circuit, htable, hexact⟩

end SurfaceFabric
