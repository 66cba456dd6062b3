import TetheredParticles.Handle
/-!
# Handle pools

A pool gives out handles and takes them back. It always gives out the lowest free slot, so the
slots in use stay dense; taking a handle back moves its slot to the next generation.

* `alloc` — the lowest free slot, or a new one behind all others.
* `free` — takes back a handle that is in use and refuses every other.
* `contains` — whether a handle is in use.
-/

namespace TetheredParticles

/-- Slots for handles of one kind. -/
structure HandlePool (kind : HandleKind) where
  /-- The slots that can be given out again, in ascending order. -/
  freeSlots : List Nat := []
  /-- How often each slot has been freed. -/
  generations : Array UInt32 := #[]
  alive : Array Bool := #[]
deriving DecidableEq, Repr

namespace HandlePool

variable {kind : HandleKind}

/-- The pool without slots. -/
def empty : HandlePool kind := {}

/-- Puts a slot into an ascending list, before the first one that is not smaller. -/
def insertSlot (slot : Nat) : List Nat → List Nat
  | [] => [slot]
  | s :: rest => if slot ≤ s then slot :: s :: rest else s :: insertSlot slot rest

/-- Gives out the lowest free slot, or a new one if none is free. There is always a new one, as
slots are unbounded here; with slots of 32 bits a pool does the same below `2 ^ 32` slots. -/
def alloc (pool : HandlePool kind) : Handle kind × HandlePool kind :=
  match pool.freeSlots with
  | slot :: rest =>
    (⟨slot, pool.generations.getD slot 0⟩,
      { pool with freeSlots := rest, alive := pool.alive.setIfInBounds slot true })
  | [] =>
    (⟨pool.generations.size, 0⟩,
      { pool with generations := pool.generations.push 0, alive := pool.alive.push true })

/-- Whether a handle has been given out and not been taken back. -/
def contains (pool : HandlePool kind) (h : Handle kind) : Bool :=
  pool.alive.getD h.index false && pool.generations.getD h.index 0 == h.generation

/-- Takes a handle back. `none` if it is not in use. -/
def free? (pool : HandlePool kind) (h : Handle kind) : Option (HandlePool kind) :=
  if pool.contains h then
    some {
      freeSlots := insertSlot h.index pool.freeSlots
      generations := pool.generations.modify h.index (· + 1)
      alive := pool.alive.setIfInBounds h.index false }
  else none

/-- Takes a handle back if it is in use. -/
def free (pool : HandlePool kind) (h : Handle kind) : HandlePool kind :=
  (pool.free? h).getD pool

/-- How many handles are in use. -/
def size (pool : HandlePool kind) : Nat := pool.generations.size - pool.freeSlots.length

/-- Whether no handle is in use. -/
def isEmpty (pool : HandlePool kind) : Bool := pool.size == 0

/-- How many slots there are, in use or not. -/
def slotCount (pool : HandlePool kind) : Nat := pool.generations.size

end HandlePool

end TetheredParticles
