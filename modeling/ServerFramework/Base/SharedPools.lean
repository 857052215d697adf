import ServerFramework.Base.MemoryPoolManager
import ServerFramework.Library.Blocks

namespace ServerFramework.Base
open Library MemoryPool

namespace MemoryPoolManager

structure Stats where
  totalBlocks : Nat := 0
  freeBlocks : Nat := 0
  usedBlocks : Nat := 0
  deriving DecidableEq, Repr

def countIn (s : Stats) (entry : PoolEntry) : Stats :=
  { s with
    totalBlocks := size64 (s.totalBlocks + entry.pool.pool.totalBlocks)
    freeBlocks := size64 (s.freeBlocks + entry.pool.pool.freeBlocks) }

def stats (mgr : MemoryPoolManager) : Stats :=
  let s := mgr.pools.foldl countIn {}
  { s with usedBlocks := size64 (s.totalBlocks + (2 ^ 64 - s.freeBlocks)) }

end MemoryPoolManager

def MemoryPool.bytesAt (memory : Memory) (a n : Nat) : List UInt8 := (List.range n).map fun i => memory (a + i)

/-- The blocks that the pool's clients have. -/
def MemoryPool.World.own (w : World) : Blocks UInt8 :=
  {block | block.base ∈ w.handedOut ∧ block.bytes = bytesAt w.memory block.base w.pool.itemSize}

/-- What a call has done to its caller's blocks. A block that is handed out is all zeros. -/
def MemoryPool.happened (w next : World) : MemoryPool.Action → Option (Blocks.Event UInt8)
  | .allocate _ =>
      if next.handedOut = w.handedOut then none
      else next.handedOut.head?.map fun ptr => .give ⟨ptr, List.replicate w.pool.itemSize 0⟩
  | .deallocate ptr => if ptr = 0 then none else some (.takeBack ptr)
  | .preAllocate _ _ => none
  | .write ptr bytes => some (.write ⟨ptr, bytesAt bytes ptr w.pool.itemSize⟩)

/-- The pools of the manager in one memory, which is the one that counts: an entry's own is out of date.
`log` is a ghost, the newest event first. -/
structure SharedPools where
  memory : Memory
  mgr : MemoryPoolManager := {}
  log : List (Blocks.Event UInt8) := []

namespace SharedPools

inductive Action
  | getPool (size : Nat) (answer : Option Nat)
  | preAlloc (answers : List (Option Nat))
  | pool (i : Nat) (action : MemoryPool.Action)

/-- The sizes for which a chunk of 64 blocks is not larger than the address space. -/
def Action.Fits : Action → Prop
  | .getPool size _ => size ≤ 2 ^ 57
  | _ => True

/-- No chunk of the one pool overlaps one of the other. -/
def Clear (w other : World) : Prop :=
  ∀ region ∈ w.regions, ∀ taken ∈ other.regions,
    region.base + region.size ≤ taken.base ∨ taken.base + taken.size ≤ region.base

instance (w other : World) : Decidable (Clear w other) :=
  inferInstanceAs (Decidable (∀ region ∈ w.regions, ∀ taken ∈ other.regions,
    region.base + region.size ≤ taken.base ∨ taken.base + taken.size ≤ region.base))

def Separate (pools : List PoolEntry) : Prop := pools.Pairwise fun entry other => Clear entry.pool other.pool

instance (pools : List PoolEntry) : Decidable (Separate pools) :=
  inferInstanceAs (Decidable (pools.Pairwise fun entry other => Clear entry.pool other.pool))

/-- `malloc` gives no pool what it has given to another. -/
def accept (s : SharedPools) : Attempt SharedPools :=
  if Separate s.mgr.pools then pure s else ExceptT.mk none

def world (s : SharedPools) (entry : PoolEntry) : World := { entry.pool with memory := s.memory }

def view (s : SharedPools) : Blocks UInt8 := {block | ∃ entry ∈ s.mgr.pools, block ∈ (s.world entry).own}

def adopt (s : SharedPools) (entry : PoolEntry) : Attempt SharedPools :=
  accept { s with memory := entry.pool.memory, mgr := ⟨s.mgr.pools ++ [entry]⟩ }

def getPool (s : SharedPools) (size : Nat) (answer : Option Nat) : Attempt SharedPools := do
  let (_, mgr) ← s.mgr.getPool 64 size s.memory answer
  match mgr.pools[s.mgr.pools.length]? with
  | none => return s
  | some entry => s.adopt entry

def addPools : List Nat → List (Option Nat) → SharedPools → Attempt SharedPools
  | [], _, s => pure s
  | sz :: sizes, answers, s => do
      let pool ← construct sz 32 32 s.memory [answers.head?.join]
      let s ← s.adopt ⟨sz, pool⟩
      addPools sizes answers.tail s

def inPool (s : SharedPools) (i : Nat) (entry : PoolEntry) (action : MemoryPool.Action) : Attempt SharedPools := do
  let w ← MemoryPool.step (s.world entry) action
  accept {
    memory := w.memory
    mgr := ⟨s.mgr.pools.set i { entry with pool := w }⟩
    log := (happened (s.world entry) w action).toList ++ s.log }

def step (s : SharedPools) : Action → Attempt SharedPools
  | .getPool size answer => s.getPool size answer
  | .preAlloc answers => addPools [64, 128, 256, 512, 1024, 2048, 4096, 8192] answers s
  | .pool i action =>
      match s.mgr.pools[i]? with
      | none => ExceptT.mk none
      | some entry => s.inPool i entry action

end SharedPools

end ServerFramework.Base
