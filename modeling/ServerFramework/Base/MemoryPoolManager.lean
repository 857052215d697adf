import ServerFramework.Base.MemoryPool

namespace ServerFramework.Base
open Library MemoryPool

structure PoolEntry where
  size : Nat
  pool : World

structure MemoryPoolManager where
  pools : List PoolEntry := []

namespace MemoryPoolManager

/-- One round of the loop that doubles `alloc_size`. -/
def roundBody (size allocSize : Nat) : Nat ⊕ Nat :=
  if allocSize < size then .inl (size64 (allocSize * 2)) else .inr allocSize

/-- The position in `pools_` stands for the pointer; `answer` is that of `malloc`, should it be called. -/
def getPool (fuel : Nat) (mgr : MemoryPoolManager) (size : Nat) (memory : Memory) (answer : Option Nat) :
    Attempt (Nat × MemoryPoolManager) :=
  match loop (roundBody size) fuel 64 with
  | none => throw .endless
  | some allocSize =>
      match mgr.pools.findIdx? fun entry => entry.size = allocSize with
      | some i => pure (i, mgr)
      | none => do
          let pool ← construct allocSize 64 64 memory [answer]
          return (mgr.pools.length, ⟨mgr.pools ++ [⟨allocSize, pool⟩]⟩)

/-- The rest of the loop of `pre_alloc`, with the answers of `malloc`. -/
def addPools (memory : Memory) : List Nat → List (Option Nat) → MemoryPoolManager → Attempt MemoryPoolManager
  | [], _, mgr => pure mgr
  | sz :: sizes, answers, mgr => do
      let pool ← construct sz 32 32 memory [answers.head?.join]
      addPools memory sizes answers.tail ⟨mgr.pools ++ [⟨sz, pool⟩]⟩

def preAlloc (mgr : MemoryPoolManager) (memory : Memory) (answers : List (Option Nat)) : Attempt MemoryPoolManager :=
  addPools memory [64, 128, 256, 512, 1024, 2048, 4096, 8192] answers mgr

inductive Action
  | getPool (fuel size : Nat) (memory : Memory) (answer : Option Nat)
  | preAlloc (memory : Memory) (answers : List (Option Nat))

def step (mgr : MemoryPoolManager) : Action → Attempt MemoryPoolManager
  | .getPool fuel size memory answer => do
      let (_, mgr) ← mgr.getPool fuel size memory answer
      return mgr
  | .preAlloc memory answers => mgr.preAlloc memory answers

end MemoryPoolManager

end ServerFramework.Base
