import ServerFramework.Library.Memory
import ServerFramework.Library.Runs

namespace ServerFramework.Base
open Library

def size64 (n : Nat) : Nat := n % 2 ^ 64

def pred64 (n : Nat) : Nat := size64 (n + (2 ^ 64 - 1))

structure MemoryPool where
  itemSize : Nat
  blockSize : Nat
  freeList : Nat := 0
  totalBlocks : Nat := 0
  freeBlocks : Nat := 0
  allChunks : List Nat := []
  deriving DecidableEq, Repr

namespace MemoryPool

def usedBlocks (pool : MemoryPool) : Nat := size64 (pool.totalBlocks + (2 ^ 64 - pool.freeBlocks))

structure Region where
  base : Nat
  size : Nat
  deriving DecidableEq, Repr

inductive Trap
  | outOfBounds
  | endless
  deriving DecidableEq, Repr

/-- The pool, the memory it lives in, what `malloc` has given it and what its clients hold. -/
structure World where
  pool : MemoryPool
  memory : Memory
  regions : List Region := []
  handedOut : List Nat := []

/-- `none` when the environment does not keep its side. -/
abbrev Attempt (α : Type) := ExceptT Trap Option α

def World.owns (w : World) (a n : Nat) : Prop :=
  ∃ region ∈ w.regions, region.base ≤ a ∧ a + n ≤ region.base + region.size

instance (w : World) (a n : Nat) : Decidable (w.owns a n) :=
  inferInstanceAs (Decidable (∃ region ∈ w.regions, region.base ≤ a ∧ a + n ≤ region.base + region.size))

def store (w : World) (a v : Nat) : Attempt World :=
  if w.owns a 8 then pure { w with memory := w.memory.store64 a v } else throw .outOfBounds

def load (w : World) (a : Nat) : Attempt Nat :=
  if w.owns a 8 then pure (w.memory.load64 a) else throw .outOfBounds

def memset (w : World) (a n : Nat) : Attempt World :=
  if w.owns a n then pure { w with memory := w.memory.overwrite a n fun _ => 0 } else throw .outOfBounds

def World.fresh (w : World) (region : Region) : Prop :=
  0 < region.base ∧ region.base + region.size ≤ 2 ^ 64 ∧
  ∀ other ∈ w.regions, region.base + region.size ≤ other.base ∨ other.base + other.size ≤ region.base

instance (w : World) (region : Region) : Decidable (w.fresh region) :=
  inferInstanceAs (Decidable (0 < region.base ∧ region.base + region.size ≤ 2 ^ 64 ∧
    ∀ other ∈ w.regions, region.base + region.size ≤ other.base ∨ other.base + other.size ≤ region.base))

/-- `malloc`, with the address it answers, or none when it fails. -/
def malloc (w : World) (size : Nat) : Option Nat → Attempt (Option Nat × World)
  | none => pure (none, w)
  | some base =>
      if w.fresh ⟨base, size⟩ then pure (some base, { w with regions := ⟨base, size⟩ :: w.regions })
      else ExceptT.mk none

def blockAt (w : World) (base i : Nat) : Nat := size64 (base + size64 (i * w.pool.itemSize))

def linkBlocks (base : Nat) : Nat → Nat → World → Attempt World
  | 0, _, w => pure w
  | n + 1, i, w => do
      let w ← store w (blockAt w base i) (blockAt w base (i + 1))
      linkBlocks base n (i + 1) w

def addChunk (w : World) (base blocks : Nat) : World :=
  { w with pool := { w.pool with
      allChunks := w.pool.allChunks ++ [base]
      totalBlocks := size64 (w.pool.totalBlocks + blocks)
      freeBlocks := size64 (w.pool.freeBlocks + blocks) } }

def setFreeList (w : World) (p : Nat) : World := { w with pool := { w.pool with freeList := p } }

def setFreeBlocks (w : World) (n : Nat) : World := { w with pool := { w.pool with freeBlocks := n } }

def takeFirst (w : World) : Attempt (Nat × World) := do
  let ptr := w.pool.freeList
  let next ← load w ptr
  let w := setFreeBlocks (setFreeList w next) (pred64 w.pool.freeBlocks)
  let w ← memset w ptr w.pool.itemSize
  return (ptr, w)

def expand (w : World) (base : Nat) : Attempt (Nat × World) := do
  let last := pred64 w.pool.blockSize
  let w := addChunk w base w.pool.blockSize
  let w := setFreeList w (blockAt w base 1)
  let w ← linkBlocks base (last - 1) 1 w
  let w ← store w (blockAt w base last) 0
  let w ← memset w base w.pool.itemSize
  return (base, setFreeBlocks w (pred64 w.pool.freeBlocks))

def allocate (w : World) (answer : Option Nat) : Attempt (Nat × World) :=
  if w.pool.freeList ≠ 0 then takeFirst w
  else do
    let (chunk, w) ← malloc w (size64 (w.pool.itemSize * w.pool.blockSize)) answer
    match chunk with
    | none => return (0, w)
    | some base => expand w base

def deallocate (w : World) (ptr : Nat) : Attempt World :=
  if ptr = 0 then pure w
  else do
    let w ← store w ptr w.pool.freeList
    return setFreeBlocks (setFreeList w ptr) (size64 (w.pool.freeBlocks + 1))

def addBatch (w : World) (base batch : Nat) : Attempt World := do
  let last := pred64 batch
  let w := addChunk w base batch
  let w ← linkBlocks base last 0 w
  let w ← store w (blockAt w base last) w.pool.freeList
  return setFreeList w base

def preAllocateRound (w : World) (left : Nat) (answer : Option Nat) : Attempt (Option World) := do
  let batch := min left w.pool.blockSize
  let (chunk, w) ← malloc w (size64 (w.pool.itemSize * batch)) answer
  match chunk with
  | none => return none
  | some base => return some (← addBatch w base batch)

/-- `answers` are those of `malloc`, which fails when there are no more of them. -/
def preAllocateLoop : Nat → World → Nat → List (Option Nat) → Attempt World
  | 0, _, _, _ => throw .endless
  | fuel + 1, w, left, answers =>
      if left = 0 then pure w
      else do
        match ← preAllocateRound w left answers.head?.join with
        | none => return w
        | some next => preAllocateLoop fuel next (left - min left w.pool.blockSize) answers.tail

def preAllocate (w : World) (count : Nat) (answers : List (Option Nat)) : Attempt World :=
  preAllocateLoop (count + 1) w count answers

def construct (itemSize preAlloc blockSize : Nat) (memory : Memory) (answers : List (Option Nat)) :
    Attempt World :=
  let itemSize := if itemSize < 8 then 8 else itemSize
  preAllocate { pool := { itemSize, blockSize }, memory } preAlloc answers

inductive Action
  | allocate (answer : Option Nat)
  | deallocate (ptr : Nat)
  | preAllocate (count : Nat) (answers : List (Option Nat))
  | write (ptr : Nat) (bytes : Memory)

def step (w : World) : Action → Attempt World
  | .allocate answer => do
      let (ptr, w) ← allocate w answer
      return if ptr = 0 then w else { w with handedOut := ptr :: w.handedOut }
  | .deallocate ptr =>
      if ptr = 0 ∨ ptr ∈ w.handedOut then do
        let w ← deallocate w ptr
        return { w with handedOut := w.handedOut.erase ptr }
      else ExceptT.mk none
  | .preAllocate count answers => preAllocate w count answers
  | .write ptr bytes =>
      if ptr ∈ w.handedOut then
        pure { w with memory := w.memory.overwrite ptr w.pool.itemSize bytes }
      else ExceptT.mk none

end MemoryPool

end ServerFramework.Base
