import ServerFramework.Base.ObjectPool

namespace ServerFramework.Base.ObjectPool

/-! ## Calls that run from their beginning to their end -/

-- What throws during an `allocate`: `make_unique`, when it is called, `T()` or `on_create_`.
inductive Thrown
  | chunk
  | construct
  | onCreate
  deriving DecidableEq, Repr

-- `propagated` is an exception that leaves the call.
inductive Result
  | object (slot : Nat)
  | null
  | propagated
  deriving DecidableEq, Repr

def grow (pool : ObjectPool) : ObjectPool := { pool with made := pool.made + 1 }.splice pool.made

def takeSlot (pool : ObjectPool) : Option (Nat × ObjectPool) :=
  match pool.popFree with
  | some taken => some taken
  | none => pool.grow.popFree

/-- `allocate` from where it has its slot. -/
def construct (pool : ObjectPool) (slot : Nat) (thrown : Option Thrown) : ObjectPool × Result :=
  let counted := { pool with allocated := pool.allocated + 1, totalCreated := pool.totalCreated + 1 }
  match thrown with
  | some .construct =>
      let pushed := counted.pushFree slot
      ({ pushed with allocated := pushed.allocated - 1 }, .null)
  | some .onCreate => (counted, .propagated)
  | _ => ({ counted with owned := slot :: counted.owned }, .object slot)

def allocate (pool : ObjectPool) (thrown : Option Thrown) : ObjectPool × Result :=
  if pool.popFree.isNone ∧ thrown = some .chunk then (pool, .propagated)
  else match pool.takeSlot with
    | none => (pool.grow, .null)
    | some (slot, popped) => popped.construct slot thrown

def deallocate (pool : ObjectPool) (slot : Nat) : ObjectPool :=
  let pushed := { pool with owned := pool.owned.erase slot }.pushFree slot
  { pushed with allocated := pushed.allocated - 1 }

-- `thrown n` is what throws in the round that has `n` rounds behind it; a null pointer breaks the loop, an exception
-- leaves it.
def preAllocate (thrown : Nat → Option Thrown) : Nat → ObjectPool → ObjectPool
  | 0, pool => pool
  | n + 1, pool => match pool.allocate (thrown n) with
      | (allocated, .object slot) => preAllocate thrown n (allocated.deallocate slot)
      | (allocated, _) => allocated

def clear (pool : ObjectPool) : ObjectPool := { pool with freeList := 0, freeListSize := 0, chunks := [] }

/-! ## Threads whose `on_create_` may throw, and `clear` -/

inductive Event
  | thread (action : Action)
  | createThrows (i : Nat)
  | clear
  deriving DecidableEq, Repr

def Call.idle (call : Call) : Bool :=
  match call.phase with
  | .returned _ => true
  | _ => false

/-- An exception from `on_create_` ends the call and leaves everything else as it is. A pool is cleared while no call
is running and nobody has an object. -/
def event (pool : ObjectPool) : Event → Option ObjectPool
  | .thread action => pool.step action
  | .createThrows i => pool.calls[i]?.bind fun call => match call.phase with
      | .creating _ => some { pool with calls := pool.calls.eraseIdx i }
      | _ => none
  | .clear => if pool.owned = [] ∧ pool.calls.all Call.idle then some pool.clear else none

end ServerFramework.Base.ObjectPool
