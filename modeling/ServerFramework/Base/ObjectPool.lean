import Mathlib.Data.List.Basic
import ServerFramework.Library.Memory
import ServerFramework.Library.Runs

namespace ServerFramework.Base

namespace ObjectPool

-- How a call ends: with an object, because `T()` threw, in the branch that should not be reached, because
-- `make_unique` threw, or with nothing to return.
inductive Outcome
  | object (slot : Nat)
  | threw
  | empty
  | badAlloc
  | done
  deriving DecidableEq, Repr

-- What a call does next. From `destroying` on it is in `deallocate`.
inductive Phase
  | popping
  | making
  | splicing (chunk : Nat)
  | popAgain
  | countAllocated (slot : Nat)
  | countCreated (slot : Nat)
  | constructing (slot : Nat)
  | pushBack (slot : Nat)
  | uncount
  | creating (slot : Nat)
  | destroying (slot : Nat)
  | pushing (slot : Nat)
  | uncounting
  | returned (outcome : Outcome)
  deriving DecidableEq, Repr

-- `rounds` is for `pre_allocate`: the rounds of its loop behind the one it is in.
structure Call where
  rounds : Option Nat
  phase : Phase
  deriving DecidableEq, Repr

end ObjectPool

-- A slot is its address, which is never 0; `next` has the links in the slots. `made` counts what `make_unique`
-- has returned, `owned` has the objects in the hands of the callers.
structure ObjectPool where
  next : Nat → Nat := fun _ => 0
  freeList : Nat := 0
  freeListSize : Nat := 0
  allocated : Nat := 0
  totalCreated : Nat := 0
  chunks : List Nat := []
  made : Nat := 0
  owned : List Nat := []
  calls : List ObjectPool.Call := []

namespace ObjectPool

-- Any number of threads: a call of its own for each of them. The flag says whether `make_unique` or `T()` succeeds.
inductive Action
  | allocate
  | deallocate (slot : Nat)
  | preAllocate (count : Nat)
  | advance (i : Nat) (succeeds : Bool)
  deriving DecidableEq, Repr

def chunkSize : Nat := 64

def chunkBase (chunk : Nat) : Nat := chunk * chunkSize + 1

def setNext (next : Nat → Nat) (slot target : Nat) : Nat → Nat := fun p => if p = slot then target else next p

def popFree (pool : ObjectPool) : Option (Nat × ObjectPool) :=
  if pool.freeList = 0 then none
  else some (pool.freeList,
    { pool with freeList := pool.next pool.freeList, freeListSize := pool.freeListSize - 1 })

def pushFree (pool : ObjectPool) (slot : Nat) : ObjectPool :=
  { pool with
    next := setNext pool.next slot pool.freeList
    freeList := slot
    freeListSize := pool.freeListSize + 1 }

/-- The loop that links the slots of a chunk. -/
def linkSlots (base : Nat) : Nat → Nat → (Nat → Nat) → Nat → Nat
  | 0, _, next => next
  | n + 1, i, next => linkSlots base n (i + 1) (setNext next (base + i - 1) (base + i))

def splice (pool : ObjectPool) (chunk : Nat) : ObjectPool :=
  let base := chunkBase chunk
  let linked := linkSlots base (chunkSize - 1) 1 pool.next
  { pool with
    next := setNext linked (base + (chunkSize - 1)) pool.freeList
    freeList := base
    freeListSize := pool.freeListSize + chunkSize
    chunks := pool.chunks ++ [chunk] }

def turn (pool : ObjectPool) (succeeds : Bool) : Phase → Option (ObjectPool × Phase)
  | .popping => match pool.popFree with
      | none => some (pool, .making)
      | some (slot, popped) => some (popped, .countAllocated slot)
  | .making =>
      if succeeds then some ({ pool with made := pool.made + 1 }, .splicing pool.made)
      else some (pool, .returned .badAlloc)
  | .splicing chunk => some (pool.splice chunk, .popAgain)
  | .popAgain => match pool.popFree with
      | none => some (pool, .returned .empty)
      | some (slot, popped) => some (popped, .countAllocated slot)
  | .countAllocated slot => some ({ pool with allocated := pool.allocated + 1 }, .countCreated slot)
  | .countCreated slot => some ({ pool with totalCreated := pool.totalCreated + 1 }, .constructing slot)
  | .constructing slot => some (pool, if succeeds then .creating slot else .pushBack slot)
  | .pushBack slot => some (pool.pushFree slot, .uncount)
  | .uncount => some ({ pool with allocated := pool.allocated - 1 }, .returned .threw)
  | .creating slot => some (pool, .returned (.object slot))
  | .destroying slot => some (pool, .pushing slot)
  | .pushing slot => some (pool.pushFree slot, .uncounting)
  | .uncounting => some ({ pool with allocated := pool.allocated - 1 }, .returned .done)
  | .returned _ => none

/-- Where a call goes on: `pre_allocate` gives its object back and takes the next one until its loop ends, a null
pointer breaks the loop. -/
def resume (rounds : Option Nat) : Phase → Call
  | .returned (.object slot) => match rounds with
      | none => ⟨none, .returned (.object slot)⟩
      | some n => ⟨some n, .destroying slot⟩
  | .returned .done => match rounds with
      | some (n + 1) => ⟨some n, .popping⟩
      | other => ⟨other, .returned .done⟩
  | phase => ⟨rounds, phase⟩

def handedOver (call : Call) : List Nat :=
  match call.phase with
  | .returned (.object slot) => [slot]
  | _ => []

def update (pool : ObjectPool) (i : Nat) (call : Call) : ObjectPool :=
  { pool with calls := pool.calls.set i call, owned := handedOver call ++ pool.owned }

def start (pool : ObjectPool) (call : Call) : ObjectPool := { pool with calls := pool.calls ++ [call] }

def step (pool : ObjectPool) : Action → Option ObjectPool
  | .allocate => some (pool.start ⟨none, .popping⟩)
  | .deallocate slot =>
      if slot ∈ pool.owned then
        some { pool.start ⟨none, .destroying slot⟩ with owned := pool.owned.erase slot }
      else none
  | .preAllocate 0 => some (pool.start ⟨some 0, .returned .done⟩)
  | .preAllocate (n + 1) => some (pool.start ⟨some n, .popping⟩)
  | .advance i succeeds => pool.calls[i]?.bind fun call =>
      (pool.turn succeeds call.phase).map fun (turned, phase) => turned.update i (resume call.rounds phase)

end ObjectPool

end ServerFramework.Base
