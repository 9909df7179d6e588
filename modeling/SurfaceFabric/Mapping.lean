import SurfaceFabric.Circuit
import SurfaceFabric.Error
import SurfaceFabric.Pool
import SurfaceFabric.SlotTree.Allocate
import SurfaceFabric.SlotTree.Build

/-!
Mappings: where every register and I/O symbol lives, and which factory each factory symbol holds.
A symbol that has a cell keeps it.
-/

namespace SurfaceFabric

structure Mapping where
  tree : SlotTree
  cells : List (Symbol × Cell)
  pool : Pool

namespace Mapping

def templatesOf (l : Layout) : List String :=
  l.units.foldl (fun seen u => if u.template ∈ seen then seen else seen ++ [u.template]) []

/-- The factories of a template as free slots, in the order the tree hands them out. -/
def drainTemplate (l : Layout) (acc : List PoolSlot × SlotTree) (template : String) :
    List PoolSlot × SlotTree :=
  let kind := SlotKind.factory template
  let (slots, t) := acc.2.drain kind (acc.2.capacity kind)
  (acc.1 ++ slots.filterMap fun s => s.handle.map fun h =>
    ⟨h, template, s.cell, ((l.unit? h).map FactoryUnit.cycles).getD 0, 0, .free⟩, t)

def ofLayout (l : Layout) : Mapping :=
  let (slots, t) := (templatesOf l).foldl (drainTemplate l) ([], SlotTree.build l)
  ⟨t, [], ⟨slots⟩⟩

def cell? (m : Mapping) (s : Symbol) : Option Cell := (m.cells.find? fun p => p.1 == s).map Prod.snd

/-- The cell of a symbol: its own, or the entrance of the factory it is bound to. -/
def coordinate? (m : Mapping) (s : Symbol) : Option Cell :=
  if s.isFactory then (m.pool.binding? s).map PoolSlot.entrance else m.cell? s

def put (m : Mapping) (s : Symbol) (c : Cell) : Mapping :=
  { m with cells := (m.cells.filter fun p => p.1 != s) ++ [(s, c)] }

/-- Gives a register or I/O symbol a cell, unless it has one. -/
def allocate (m : Mapping) (s : Symbol) : Except CompileError (Cell × Mapping) :=
  match m.cell? s with
  | some c => .ok (c, m)
  | none =>
      if s.isFactory then .error (.unmapped s)
      else
        match m.tree.alloc? s.slotKind with
        | none => .error (.outOfSlots s.slotKind)
        | some (slot, tree) => .ok (slot.cell, { m with tree := tree }.put s slot.cell)

def allocateAll (m : Mapping) : List Symbol → Mapping × Except CompileError Unit
  | [] => (m, .ok ())
  | s :: rest =>
      match m.allocate s with
      | .ok (_, m) => m.allocateAll rest
      | .error e => (m, .error e)

def mapCircuit (m : Mapping) (c : Circuit) : Mapping × Except CompileError Unit :=
  m.allocateAll c.symbols

def assign (m : Mapping) (s : Symbol) (c : Cell) : Mapping :=
  { m with tree := (m.tree.take? c).getD m.tree }.put s c

def render (m : Mapping) : String :=
  String.join <| (sortBy (fun a b => a.1.le b.1) m.cells).map fun (s, c) =>
    s.label ++ " -> " ++ c.text ++ "\n"

end Mapping

end SurfaceFabric
