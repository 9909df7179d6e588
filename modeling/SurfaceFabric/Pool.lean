import SurfaceFabric.Layout

/-!
The pool of placed factories and who holds each. Taking a factory has two phases: a reservation gives
a ticket, and the ticket is either committed, which binds the factory to its symbol, or released.
Free factories are offered cheapest first, then longest idle, then in the order of the pool.
-/

namespace SurfaceFabric

inductive Occupancy
  | free
  | reserved (symbol : Symbol)
  | bound (symbol : Symbol)
  deriving DecidableEq, Repr

def Occupancy.heldBy (o : Occupancy) (s : Symbol) : Bool :=
  match o with
  | .free => false
  | .reserved t => t == s
  | .bound t => t == s

structure PoolSlot where
  handle : Nat
  template : String
  entrance : Cell
  cycles : Nat
  idleSince : Nat
  occupancy : Occupancy
  deriving DecidableEq, Repr

structure Pool where
  slots : List PoolSlot
  deriving DecidableEq, Repr

structure Ticket where
  handle : Nat
  symbol : Symbol
  deriving DecidableEq, Repr

def updateFirst {α : Type} (p : α → Bool) (g : α → α) : List α → List α
  | [] => []
  | a :: rest => if p a then g a :: rest else a :: updateFirst p g rest

@[simp] theorem updateFirst_length {α : Type} (p : α → Bool) (g : α → α) (l : List α) :
    (updateFirst p g l).length = l.length := by
  induction l with
  | nil => rfl
  | cons a rest ih => by_cases h : p a <;> simp [updateFirst, h, ih]

namespace Pool

def empty : Pool := ⟨[]⟩

/-- Free slots for the factories of a layout in the order they were placed. -/
def ofLayout (l : Layout) : Pool :=
  ⟨l.units.filterMap fun u =>
    (l.entrance? u.handle).map fun entrance => ⟨u.handle, u.template, entrance, u.cycles, 0, .free⟩⟩

def binding? (p : Pool) (s : Symbol) : Option PoolSlot :=
  p.slots.find? fun slot => slot.occupancy == .bound s

def isHeld (p : Pool) (s : Symbol) : Bool := p.slots.any fun slot => slot.occupancy.heldBy s

def slot? (p : Pool) (handle : Nat) : Option PoolSlot := p.slots.find? fun slot => slot.handle == handle

def idleSince? (p : Pool) (handle : Nat) : Option Nat := (p.slot? handle).map PoolSlot.idleSince

def entrance? (p : Pool) (handle : Nat) : Option Cell := (p.slot? handle).map PoolSlot.entrance

/-- Cheaper, or as cheap and idle for longer. -/
def preferable (a b : PoolSlot) : Bool :=
  a.cycles < b.cycles || (a.cycles == b.cycles && a.idleSince < b.idleSince)

/-- Position of the preferred slot among those that pass a test; the first of equals. -/
def preferred? (p : PoolSlot → Bool) : Nat → List PoolSlot → Option (Nat × PoolSlot)
  | _, [] => none
  | i, slot :: rest =>
      match p slot, preferred? p (i + 1) rest with
      | false, later => later
      | true, none => some (i, slot)
      | true, some (j, other) => if preferable other slot then some (j, other) else some (i, slot)

def isOffered (template : String) (slot : PoolSlot) : Bool :=
  slot.template == template && slot.occupancy == .free

def reserveSlot (p : Pool) (i : Nat) (slot : PoolSlot) (s : Symbol) : Ticket × Pool :=
  (⟨slot.handle, s⟩, ⟨p.slots.set i { slot with occupancy := .reserved s }⟩)

/-- Reserves some free factory of the symbol's template; nothing for a symbol that holds one already
or needs none. -/
def reserve? (p : Pool) (s : Symbol) : Option (Ticket × Pool) := do
  let template ← s.template?
  if p.isHeld s then none
  let (i, slot) ← preferred? (isOffered template) 0 p.slots
  return p.reserveSlot i slot s

def reserveHandle? (p : Pool) (s : Symbol) (handle : Nat) : Option (Ticket × Pool) := do
  let template ← s.template?
  if p.isHeld s then none
  let i ← p.slots.findIdx? fun slot => slot.handle == handle && isOffered template slot
  let slot ← p.slots[i]?
  return p.reserveSlot i slot s

def update (p : Pool) (handle : Nat) (g : PoolSlot → PoolSlot) : Pool :=
  ⟨updateFirst (fun slot => slot.handle == handle) g p.slots⟩

def commit (p : Pool) (ticket : Ticket) : Pool :=
  p.update ticket.handle fun slot => { slot with occupancy := .bound ticket.symbol }

def release (p : Pool) (ticket : Ticket) : Pool :=
  p.update ticket.handle fun slot =>
    if slot.occupancy = .reserved ticket.symbol then { slot with occupancy := .free } else slot

def releaseAll (p : Pool) (tickets : List Ticket) : Pool := tickets.foldl release p

def commitAll (p : Pool) (tickets : List Ticket) : Pool := tickets.foldl commit p

def free (p : Pool) (s : Symbol) (tick : Nat) : Pool :=
  ⟨updateFirst (fun slot => slot.occupancy == .bound s)
    (fun slot => { slot with occupancy := .free, idleSince := tick }) p.slots⟩

end Pool

end SurfaceFabric
