import SurfaceFabric.Mapping
import SurfaceFabric.Proofs.Pool.Stock
import SurfaceFabric.Proofs.SlotTree.Allocate

/-!
The pool that a mapping starts with. Its factories come out of the slot tree, template by template. A factory
leaf has its template from the layout and counts slots of this kind only, whatever the shape of the tree. A
request goes to nodes that count a slot of its kind, so what comes out is of the template asked for.
-/

namespace SurfaceFabric

variable {l : Layout} {kind : SlotKind} {i : Nat}

/-- A node that is no factory leaf, or one with the template that the layout has for its handle and with no
slots of another kind. -/
def SlotNode.Labelled (l : Layout) (n : SlotNode) : Prop :=
  ∀ segment handle template entrance taken, n.kind = .factory segment handle template entrance taken →
    (l.unit? handle).map FactoryUnit.template = some template ∧
      ∀ kind, 0 < n.free.count kind → kind = .factory template

def Slot.Fits (l : Layout) (kind : SlotKind) (slot : Slot) : Prop :=
  ∀ handle, slot.handle = some handle →
    ∃ template, kind = .factory template ∧ (l.unit? handle).map FactoryUnit.template = some template

/-- What a labelled leaf hands out, and what is left of it. -/
theorem SlotNode.Labelled.hand {n : SlotNode} {slot : Slot} {rest : SlotNodeKind} (hn : n.Labelled l)
    (hpos : 0 < n.free.count kind) (hhand : SlotTree.hand? n.kind = some (slot, rest)) :
    SlotNode.Labelled l { n with kind := rest } ∧ slot.Fits l kind := by
  cases hkind : n.kind with
  | cells segment kind left =>
      rw [hkind] at hhand
      cases left with
      | nil => cases hhand
      | cons c left =>
          cases hhand
          refine ⟨fun _ _ _ _ _ heq => ?_, fun _ heq => ?_⟩
          · cases heq
          · cases heq
  | factory segment handle template entrance taken =>
      obtain ⟨hunit, hcount⟩ := hn segment handle template entrance taken hkind
      rw [hkind] at hhand
      cases hhand
      refine ⟨fun _ _ _ _ _ heq => ?_, fun _ heq => ?_⟩
      · cases heq
        exact ⟨hunit, hcount⟩
      · cases heq
        exact ⟨template, hcount kind hpos, hunit⟩
  | route segment =>
      rw [hkind] at hhand
      cases hhand
  | junction =>
      rw [hkind] at hhand
      cases hhand

namespace SlotTree

variable {t u : SlotTree} {path : List Nat}

/-- A request ends at a leaf that counts a slot of its kind. -/
theorem free_of_descend {n : Nat} (hpath : t.descend kind n i = some path) (hfree : 0 < t.free i kind) :
    ∃ leaf, path.getLast? = some leaf ∧ 0 < t.free leaf kind := by
  induction n generalizing i path with
  | zero => cases hpath
  | succ n ih =>
      obtain ⟨node, hnode, hpath⟩ := Option.bind_eq_some_iff.1 hpath
      split at hpath
      · cases hpath
        exact ⟨i, rfl, hfree⟩
      · obtain ⟨c, hc, hpath⟩ := Option.bind_eq_some_iff.1 hpath
        obtain ⟨rest, hrest, hpath⟩ := Option.bind_eq_some_iff.1 hpath
        cases hpath
        obtain ⟨leaf, hlast, hleaf⟩ := ih hrest (heaviest?_eq_some hc).2
        exact ⟨leaf, by rw [List.getLast?_cons, hlast, Option.getD_some], hleaf⟩

def Labelled (l : Layout) (t : SlotTree) : Prop := ∀ n ∈ t.nodes, n.Labelled l

namespace Labelled

theorem modify {g : SlotNode → SlotNode} (h : t.Labelled l)
    (hg : ∀ n, t.node? i = some n → n.Labelled l → (g n).Labelled l) : (t.modify i g).Labelled l := by
  intro n hn
  obtain ⟨j, hj⟩ := List.mem_iff_getElem?.1 hn
  have hj : (t.modify i g).node? j = some n := hj
  rw [node?_modify] at hj
  split at hj
  · next heq =>
      subst heq
      obtain ⟨m, hm, rfl⟩ := Option.map_eq_some_iff.1 hj
      exact hg m hm (h m (List.mem_of_getElem? hm))
  · exact h n (List.mem_of_getElem? hj)

theorem foldl {α : Type} {f : SlotTree → α → SlotTree} (h : t.Labelled l)
    (hf : ∀ t, t.Labelled l → ∀ a, (f t a).Labelled l) (as : List α) : (as.foldl f t).Labelled l :=
  List.foldlRecOn (motive := fun t : SlotTree => t.Labelled l) as f h fun t ht a _ => hf t ht a

/-- Links and weights do not matter. -/
theorem relink {g : SlotNode → SlotNode} (h : t.Labelled l)
    (hg : ∀ n, (g n).kind = n.kind ∧ (g n).free = n.free) (i : Nat) : (t.modify i g).Labelled l := by
  refine h.modify fun n _ hn => ?_
  rw [SlotNode.Labelled, (hg n).1, (hg n).2]
  exact hn

theorem push {k : SlotNodeKind} {w : Float} (h : t.Labelled l)
    (hk : ∀ segment handle template entrance taken, k = .factory segment handle template entrance taken →
      (l.unit? handle).map FactoryUnit.template = some template) : (t.push (.isolated k w)).Labelled l := by
  intro n hn
  rcases List.mem_append.1 hn with hn | hn
  · exact h n hn
  · rw [List.mem_singleton.1 hn]
    intro segment handle template entrance taken heq
    refine ⟨hk segment handle template entrance taken heq, fun kind hpos => ?_⟩
    exact absurd hpos (Nat.not_lt_zero 0)

theorem attach (h : t.Labelled l) (p c : Nat) : (t.attach p c).Labelled l := by
  refine (h.relink ?_ c).relink ?_ p
  · exact fun _ => ⟨rfl, rfl⟩
  · exact fun _ => ⟨rfl, rfl⟩

theorem addLeaf {g : AccessGraph} {routes : List Nat} (h : t.Labelled l) (s : Segment) :
    (t.addLeaf l g routes s).Labelled l := by
  rw [SlotTree.addLeaf]
  split
  · next hleaf =>
      refine (h.push fun segment handle template entrance taken heq => ?_).attach _ _
      subst heq
      rw [leafKind?] at hleaf
      split at hleaf
      · cases hleaf
      · cases hleaf
      · obtain ⟨unit, hunit, hleaf⟩ := Option.bind_eq_some_iff.1 hleaf
        obtain ⟨e, -, hleaf⟩ := Option.bind_eq_some_iff.1 hleaf
        cases hleaf
        rw [hunit]
        rfl
      · cases hleaf
  · exact h

theorem cover (h : t.Labelled l) (members : List Nat) : (t.cover members).Labelled l := by
  refine foldl (h.push ?_) (fun u hu m => hu.attach _ m) members
  intro _ _ _ _ _ heq
  cases heq

theorem start (h : t.Labelled l) (n : Nat) : (Clustering.start t n).tree.Labelled l :=
  List.foldlRecOn (motive := fun c : Clustering => c.tree.Labelled l) (List.range n) _ h
    fun _ hc i _ => hc.cover [i]

theorem join {c : Clustering} (h : c.tree.Labelled l) (former : List Nat) (leader : Nat) :
    (c.join former leader).tree.Labelled l := by
  rw [Clustering.join]
  split
  · exact h
  · exact h.cover _

theorem rounds {g : AccessGraph} {routes : List Nat} {c : Clustering} (h : c.tree.Labelled l) (n : Nat) :
    (c.rounds g routes n).tree.Labelled l := by
  induction n generalizing c with
  | zero => exact h
  | succ n ih =>
      rw [Clustering.rounds]
      split
      · exact h
      · apply ih
        exact List.foldlRecOn (motive := fun c : Clustering => c.tree.Labelled l) _ _ h fun _ hc leader _ =>
          hc.join _ leader

theorem replace (h : t.Labelled l) (parent : Option Nat) (a b : Nat) : (t.replace parent a b).Labelled l := by
  cases parent with
  | some p =>
      refine h.relink ?_ p
      exact fun _ => ⟨rfl, rfl⟩
  | none =>
      rw [SlotTree.replace]
      split
      · exact h
      · exact h

theorem promote (h : t.Labelled l) (i : Nat) : (t.promote i).Labelled l := by
  rw [SlotTree.promote]
  split
  · refine ((h.relink ?_ _).replace _ i _).relink ?_ i
    · exact fun _ => ⟨rfl, rfl⟩
    · exact fun _ => ⟨rfl, rfl⟩
  · exact h

theorem settle (h : t.Labelled l) (i : Nat) : (t.settle i).Labelled l := by
  rw [SlotTree.settle]
  split
  · exact h
  · next node hnode =>
      split
      · refine h.modify fun n _ hn segment handle template entrance taken hkind => ?_
        refine ⟨(hn segment handle template entrance taken hkind).1, fun kind hpos => ?_⟩
        have hkind : n.kind = .factory segment handle template entrance taken := hkind
        by_contra hne
        simp [hkind, SlotNodeKind.offers, hne] at hpos
      · next hinner =>
          -- a factory leaf is not an inner node
          refine h.modify fun n hn _ segment handle template entrance taken hkind => ?_
          obtain rfl := Option.some.inj (hnode.symm.trans hn)
          have hkind : node.kind = .factory segment handle template entrance taken := hkind
          simp [SlotNode.isLeaf, hkind, SlotNodeKind.isLeaf] at hinner

theorem spend (h : t.Labelled l) (kind : SlotKind) (i : Nat) : (t.modify i (.spend kind)).Labelled l := by
  refine h.modify fun n _ hn segment handle template entrance taken hkind => ?_
  refine (hn segment handle template entrance taken hkind).imp_right fun hcount kind' hpos => ?_
  refine hcount kind' ?_
  rw [SlotNode.spend, Tally.count_spend] at hpos
  omega

theorem accumulate (h : t.Labelled l) : t.accumulate.Labelled l := by
  rw [SlotTree.accumulate]
  split
  · exact h
  · exact h.foldl (fun _ ht i => ht.settle i) _

theorem collapse (h : t.Labelled l) : t.collapse.Labelled l :=
  h.foldl (fun _ ht i => ht.promote i) _

theorem build (l : Layout) : (SlotTree.build l).Labelled l := by
  have hempty : empty.Labelled l := fun n hn => absurd hn List.not_mem_nil
  rw [SlotTree.build]
  dsimp only
  split
  · exact hempty
  · next main _ =>
      apply accumulate
      apply collapse
      apply rounds
      apply start
      refine foldl (hempty.foldl (fun _ ht r => ht.push ?_) _) (fun _ ht s => ht.addLeaf s) _
      intro _ _ _ _ _ heq
      cases heq

/-- A factory that is handed out is of the template asked for. -/
theorem alloc {slot : Slot} (h : t.Labelled l) (halloc : t.alloc? kind = some (slot, u)) :
    u.Labelled l ∧ slot.Fits l kind := by
  rw [alloc?] at halloc
  split at halloc
  · cases halloc
  · next hcapacity =>
      obtain ⟨root, hroot, halloc⟩ := Option.bind_eq_some_iff.1 halloc
      obtain ⟨path, hpath, halloc⟩ := Option.bind_eq_some_iff.1 halloc
      obtain ⟨leaf, hlast, halloc⟩ := Option.bind_eq_some_iff.1 halloc
      obtain ⟨node, hnode, halloc⟩ := Option.bind_eq_some_iff.1 halloc
      obtain ⟨⟨_, rest⟩, hhand, halloc⟩ := Option.bind_eq_some_iff.1 halloc
      cases halloc
      have hpos : 0 < node.free.count kind := by
        have hfree : 0 < t.free root kind := by
          simpa [capacity, hroot, Nat.pos_iff_ne_zero] using hcapacity
        obtain ⟨_, hlast', hpos⟩ := free_of_descend hpath hfree
        obtain rfl := Option.some.inj (hlast.symm.trans hlast')
        simpa [free, tally, hnode] using hpos
      obtain ⟨hrest, hslot⟩ := (h node (List.mem_of_getElem? hnode)).hand hpos hhand
      refine ⟨?_, hslot⟩
      have htaken : (t.modify leaf fun n => { n with kind := rest }).Labelled l := by
        refine h.modify fun n hn _ => ?_
        obtain rfl := Option.some.inj (hnode.symm.trans hn)
        exact hrest
      refine foldl (htaken.foldl (fun _ ht i => ht.spend kind i) path) (fun _ ht s => ht.relink ?_ s.1) _
      exact fun _ => ⟨rfl, rfl⟩

theorem drain (h : t.Labelled l) (kind : SlotKind) (n : Nat) :
    (t.drain kind n).2.Labelled l ∧ ∀ slot ∈ (t.drain kind n).1, slot.Fits l kind := by
  induction n generalizing t with
  | zero => exact ⟨h, fun slot hslot => absurd hslot List.not_mem_nil⟩
  | succ n ih =>
      rw [SlotTree.drain]
      split
      · exact ⟨h, fun slot hslot => absurd hslot List.not_mem_nil⟩
      · next slot u halloc =>
          obtain ⟨hu, hslot⟩ := h.alloc halloc
          obtain ⟨hlabelled, hslots⟩ := ih hu
          exact ⟨hlabelled, List.forall_mem_cons.2 ⟨hslot, hslots⟩⟩

end Labelled

end SlotTree

namespace Mapping

def Stands (l : Layout) (slot : PoolSlot) : Prop :=
  slot.occupancy = .free ∧ ∃ u, l.unit? slot.handle = some u ∧ slot.template = u.template ∧
    slot.cycles = u.cycles

theorem stands_drainTemplate {acc : List PoolSlot × SlotTree} (hacc : ∀ slot ∈ acc.1, Stands l slot)
    (htree : acc.2.Labelled l) (template : String) :
    (∀ slot ∈ (drainTemplate l acc template).1, Stands l slot) ∧
      (drainTemplate l acc template).2.Labelled l := by
  obtain ⟨htree, hslots⟩ := htree.drain (.factory template) (acc.2.capacity (.factory template))
  refine ⟨fun slot hslot => ?_, htree⟩
  rcases List.mem_append.1 hslot with hold | hnew
  · exact hacc slot hold
  · obtain ⟨s, hs, hmap⟩ := List.mem_filterMap.1 hnew
    obtain ⟨handle, hhandle, rfl⟩ := Option.map_eq_some_iff.1 hmap
    obtain ⟨_, heq, hunit⟩ := hslots s hs handle hhandle
    cases heq
    obtain ⟨u, hu, rfl⟩ := Option.map_eq_some_iff.1 hunit
    exact ⟨rfl, u, hu, rfl, by rw [hu]; rfl⟩

/-- The pool of a mapping has the factories of the layout only, and all are free. -/
theorem stands_ofLayout (l : Layout) : ∀ slot ∈ (ofLayout l).pool.slots, Stands l slot := by
  have hacc : (∀ slot ∈ ((templatesOf l).foldl (drainTemplate l) ([], .build l)).1, Stands l slot) ∧
      ((templatesOf l).foldl (drainTemplate l) ([], .build l)).2.Labelled l :=
    List.foldlRecOn (motive := fun acc : List PoolSlot × SlotTree =>
        (∀ slot ∈ acc.1, Stands l slot) ∧ acc.2.Labelled l) _ _
      ⟨fun slot hslot => absurd hslot List.not_mem_nil, .build l⟩
      fun acc hacc template _ => stands_drainTemplate hacc.1 hacc.2 template
  exact hacc.1

/-- A handle may come up more than once, but for one template only. -/
theorem uniform_ofLayout (l : Layout) : (ofLayout l).pool.Uniform := by
  intro a ha b hb heq
  obtain ⟨-, u, hu, htemplate, -⟩ := stands_ofLayout l a ha
  obtain ⟨-, v, hv, htemplate', -⟩ := stands_ofLayout l b hb
  rw [heq] at hu
  obtain rfl := Option.some.inj (hu.symm.trans hv)
  rw [htemplate, htemplate']

end Mapping

end SurfaceFabric
