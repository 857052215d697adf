import ServerFramework.Proof.Base.MemoryPool

namespace ServerFramework.Base
open Library

namespace MemoryPool

/-! ## The pool whose links are held to the new chunk -/

/-- `write` may touch the newest chunk and nothing else. -/
def within (write : World → Attempt World) (w : World) : Attempt World := do
  let next ← write { w with regions := w.regions.take 1 }
  return { next with regions := w.regions }

def expandWithin (w : World) (base : Nat) : Attempt (Nat × World) := do
  let last := pred64 w.pool.blockSize
  let w := addChunk w base w.pool.blockSize
  let w := setFreeList w (blockAt w base 1)
  let w ← within (linkBlocks base (last - 1) 1) w
  let w ← within (fun w => store w (blockAt w base last) 0) w
  let w ← memset w base w.pool.itemSize
  return (base, setFreeBlocks w (pred64 w.pool.freeBlocks))

def allocateWithin (w : World) (answer : Option Nat) : Attempt (Nat × World) :=
  if w.pool.freeList ≠ 0 then takeFirst w
  else do
    let (chunk, w) ← malloc w (size64 (w.pool.itemSize * w.pool.blockSize)) answer
    match chunk with
    | none => return (0, w)
    | some base => expandWithin w base

def addBatchWithin (w : World) (base batch : Nat) : Attempt World := do
  let last := pred64 batch
  let w := addChunk w base batch
  let w ← within (linkBlocks base last 0) w
  let w ← within (fun w => store w (blockAt w base last) w.pool.freeList) w
  return setFreeList w base

def preAllocateRoundWithin (w : World) (left : Nat) (answer : Option Nat) : Attempt (Option World) := do
  let batch := min left w.pool.blockSize
  let (chunk, w) ← malloc w (size64 (w.pool.itemSize * batch)) answer
  match chunk with
  | none => return none
  | some base => return some (← addBatchWithin w base batch)

def preAllocateLoopWithin : Nat → World → Nat → List (Option Nat) → Attempt World
  | 0, _, _, _ => throw .endless
  | fuel + 1, w, left, answers =>
      if left = 0 then pure w
      else do
        match ← preAllocateRoundWithin w left answers.head?.join with
        | none => return w
        | some next => preAllocateLoopWithin fuel next (left - min left w.pool.blockSize) answers.tail

def constructWithin (itemSize preAlloc blockSize : Nat) (memory : Memory) (answers : List (Option Nat)) :
    Attempt World :=
  let itemSize := if itemSize < 8 then 8 else itemSize
  preAllocateLoopWithin (preAlloc + 1) { pool := { itemSize, blockSize }, memory } preAlloc answers

def stepWithin (w : World) : Action → Attempt World
  | .allocate answer => do
      let (ptr, w) ← allocateWithin w answer
      return if ptr = 0 then w else { w with handedOut := ptr :: w.handedOut }
  | .preAllocate count answers => preAllocateLoopWithin (count + 1) w count answers
  | action => step w action

/-! ## It is the same pool -/

theorem owns_of_take {w : World} {a n : Nat} (owned : ({ w with regions := w.regions.take 1 } : World).owns a n) :
    w.owns a n := by
  obtain ⟨region, among, inside⟩ := owned
  exact ⟨region, List.mem_of_mem_take among, inside⟩

theorem store_within {w : World} {a : Nat} (v : Nat)
    (inside : ({ w with regions := w.regions.take 1 } : World).owns a 8) :
    within (fun w => store w a v) w = store w a v := by
  rw [within, store_owned v inside, store_owned v (owns_of_take inside)]
  rfl

theorem linkBlocks_within {base n i : Nat} {w : World}
    (inside : ∀ j, i ≤ j → j < i + n → ({ w with regions := w.regions.take 1 } : World).owns (blockAt w base j) 8) :
    ∃ memory, linkBlocks base n i w = pure { w with memory } ∧
      within (linkBlocks base n i) w = pure { w with memory } := by
  induction n generalizing i w with
  | zero => exact ⟨w.memory, rfl, rfl⟩
  | succ n ih =>
      have here := inside i (Nat.le_refl i) (by omega)
      let next : World := { w with memory := w.memory.store64 (blockAt w base i) (blockAt w base (i + 1)) }
      have rest : ∀ j, i + 1 ≤ j → j < i + 1 + n →
          ({ next with regions := next.regions.take 1 } : World).owns (blockAt next base j) 8 :=
        fun j lower upper => inside j (by omega) (by omega)
      obtain ⟨memory, plain, held⟩ := ih rest
      refine ⟨memory, ?_, ?_⟩
      · rw [linkBlocks, store_owned _ (owns_of_take here), pure_bind]
        exact plain
      · rw [within, linkBlocks]
        change ((store _ (blockAt w base i) (blockAt w base (i + 1)) >>= _) >>= _) = _
        rw [store_owned _ here, pure_bind]
        exact held

theorem block_inside_chunk {w : World} {base count j : Nat} (item : 8 ≤ w.pool.itemSize) (inside : j < count)
    (top : base + w.pool.itemSize * count ≤ 2 ^ 64) :
    ({ w with regions := [⟨base, w.pool.itemSize * count⟩] } : World).owns (blockAt w base j) 8 := by
  have covered : (j + 1) * w.pool.itemSize ≤ count * w.pool.itemSize := Nat.mul_le_mul_right _ inside
  rw [Nat.succ_mul, Nat.mul_comm count] at covered
  rw [blockAt_of_lt (by omega)]
  exact (block_owned { w with regions := [] } base inside).shrink item

section Chunk

variable {w : World} {base count : Nat} (item : 8 ≤ w.pool.itemSize) (few : count < 2 ^ 64)
  (top : base + w.pool.itemSize * count ≤ 2 ^ 64)
include item few top

theorem addBatchWithin_eq (positive : 0 < count) :
    addBatchWithin { w with regions := ⟨base, w.pool.itemSize * count⟩ :: w.regions } base count =
      addBatch { w with regions := ⟨base, w.pool.itemSize * count⟩ :: w.regions } base count := by
  let grown := addChunk { w with regions := ⟨base, w.pool.itemSize * count⟩ :: w.regions } base count
  have last : pred64 count = count - 1 := pred64_of_pos positive few
  have inside : ∀ j < count, ({ grown with regions := grown.regions.take 1 } : World).owns (blockAt grown base j) 8 :=
    fun j bound => @block_inside_chunk grown base count j item bound top
  obtain ⟨memory, plain, held⟩ := linkBlocks_within fun j (_ : 0 ≤ j) (upper : j < 0 + (count - 1)) =>
    inside j (by omega)
  rw [addBatchWithin, addBatch, last]
  change (within (linkBlocks base (count - 1) 0) grown >>= _) = (linkBlocks base (count - 1) 0 grown >>= _)
  rw [plain, held, pure_bind, pure_bind]
  have stored := @store_within { grown with memory } (blockAt grown base (count - 1)) grown.pool.freeList
    (inside (count - 1) (by omega))
  change (within (fun w => store w (blockAt grown base (count - 1)) grown.pool.freeList) { grown with memory } >>= _) = _
  rw [stored]
  rfl

theorem expandWithin_eq (two : 2 ≤ count) (size : count = w.pool.blockSize) :
    expandWithin { w with regions := ⟨base, w.pool.itemSize * count⟩ :: w.regions } base =
      expand { w with regions := ⟨base, w.pool.itemSize * count⟩ :: w.regions } base := by
  let chunk := addChunk { w with regions := ⟨base, w.pool.itemSize * count⟩ :: w.regions } base count
  let grown := setFreeList chunk (blockAt chunk base 1)
  have last : pred64 count = count - 1 := pred64_of_pos (by omega) few
  have inside : ∀ j < count, ({ grown with regions := grown.regions.take 1 } : World).owns (blockAt grown base j) 8 :=
    fun j bound => @block_inside_chunk grown base count j item bound top
  obtain ⟨memory, plain, held⟩ := linkBlocks_within fun j (_ : 1 ≤ j) (upper : j < 1 + (count - 1 - 1)) =>
    inside j (by omega)
  rw [expandWithin, expand]
  dsimp only
  rw [← size, last]
  change (within (linkBlocks base (count - 1 - 1) 1) grown >>= _) = (linkBlocks base (count - 1 - 1) 1 grown >>= _)
  rw [plain, held, pure_bind, pure_bind]
  have stored := @store_within { grown with memory } (blockAt grown base (count - 1)) 0
    (inside (count - 1) (by omega))
  change (within (fun w => store w (blockAt grown base (count - 1)) 0) { grown with memory } >>= _) = _
  rw [stored]
  rfl

end Chunk

theorem Good.few {w : World} {free : List Nat} (good : Good w free) : w.pool.blockSize < 2 ^ 64 :=
  Nat.lt_of_le_of_lt (Nat.le_mul_of_pos_left _ good.positive) good.product

theorem preAllocateRoundWithin_eq {w : World} {free : List Nat} {left : Nat} (good : Good w free) (positive : 0 < left)
    (answer : Option Nat) : preAllocateRoundWithin w left answer = preAllocateRound w left answer := by
  have two := good.block
  have few := good.few
  have batch : w.pool.itemSize * min left w.pool.blockSize < 2 ^ 64 :=
    (Nat.mul_le_mul_left _ (Nat.min_le_right _ _)).trans_lt good.product
  rw [preAllocateRoundWithin, preAllocateRound]
  dsimp only
  rw [size64_of_lt batch]
  cases answer with
  | none => simp only [malloc, pure_bind]
  | some base =>
      by_cases fresh : w.fresh ⟨base, w.pool.itemSize * min left w.pool.blockSize⟩
      · have same := @addBatchWithin_eq w base (min left w.pool.blockSize) good.item (by omega) fresh.2.1 (by omega)
        simp only [malloc_fresh fresh, pure_bind, same]
      · simp only [malloc_stale fresh, bind_none]

theorem preAllocateLoopWithin_eq {fuel left : Nat} {w : World} {free : List Nat} {answers : List (Option Nat)}
    (good : Good w free) : preAllocateLoopWithin fuel w left answers = preAllocateLoop fuel w left answers := by
  induction fuel generalizing left w free answers with
  | zero => rfl
  | succ fuel ih =>
      rw [preAllocateLoopWithin, preAllocateLoop]
      split
      · rfl
      · rename_i more
        rw [preAllocateRoundWithin_eq good (by omega)]
        cases round : preAllocateRound w left answers.head?.join with
        | none => exact (bind_none _).trans (bind_none _).symm
        | some answer =>
            rcases preAllocateRound_good good (by omega) round with rfl | ⟨next, rfl, -, -, cells, kept⟩
            · change (pure none >>= _ : Attempt World) = (pure none >>= _ : Attempt World)
              rw [pure_bind, pure_bind]
            · change (pure (some next) >>= _ : Attempt World) = (pure (some next) >>= _ : Attempt World)
              rw [pure_bind, pure_bind]
              exact ih kept

theorem allocateWithin_eq {w : World} {free : List Nat} (good : Good w free) (answer : Option Nat) :
    allocateWithin w answer = allocate w answer := by
  rw [allocateWithin, allocate]
  split
  · rfl
  · rw [size64_of_lt good.product]
    cases answer with
    | none => simp only [malloc, pure_bind]
    | some base =>
        by_cases fresh : w.fresh ⟨base, w.pool.itemSize * w.pool.blockSize⟩
        · have same := @expandWithin_eq w base w.pool.blockSize good.item good.few fresh.2.1 good.block rfl
          simp only [malloc_fresh fresh, pure_bind, same]
        · simp only [malloc_stale fresh, bind_none]

theorem stepWithin_eq {w : World} {free : List Nat} (good : Good w free) (action : Action) :
    stepWithin w action = step w action := by
  cases action with
  | allocate answer =>
      rw [stepWithin, step, allocateWithin_eq good]
  | deallocate ptr => rfl
  | preAllocate count answers => exact preAllocateLoopWithin_eq good
  | write ptr bytes => rfl

/-! ## Every run is in bounds -/

structure InBounds (w : World) : Prop where
  held : ∀ ptr ∈ w.handedOut, w.owns ptr w.pool.itemSize
  allocates : ∀ answer returned, allocate w answer = some returned →
    ∃ ptr next, returned = .ok (ptr, next) ∧ (ptr ≠ 0 → next.owns ptr next.pool.itemSize)

theorem Good.inBounds {w : World} {free : List Nat} (good : Good w free) : InBounds w where
  held ptr member := (good.cell_range (List.mem_append_right _ member)).2.2
  allocates answer returned call := by
    rcases allocate_good good call with rfl | ⟨ptr, next, rfl, -, -, -, cells, kept⟩
    · exact ⟨0, w, rfl, fun nonnull => absurd rfl nonnull⟩
    · exact ⟨ptr, next, rfl, fun _ => (kept.cell_range (by simp)).2.2⟩

theorem pool_in_bounds (itemSize preAlloc blockSize : Nat) (memory : Memory) (answers : List (Option Nat))
    (actions : List Action) (start result : Except Trap World) (two : 2 ≤ blockSize)
    (fits : max itemSize 8 * blockSize < 2 ^ 64)
    (built : construct itemSize preAlloc blockSize memory answers = some start)
    (ran : exec (orFault step) start actions = some result) :
    constructWithin itemSize preAlloc blockSize memory answers = some start ∧
    exec (orFault stepWithin) start actions = some result ∧
    ∃ w, result = .ok w ∧ InBounds w := by
  obtain ⟨first, rfl, initial⟩ := construct_good two fits built
  refine ⟨?_, ?_, ?_⟩
  · have rounded : (if itemSize < 8 then 8 else itemSize) = max itemSize 8 := by
      split <;> omega
    rw [construct, preAllocate] at built
    rw [constructWithin, ← built, rounded]
    exact preAllocateLoopWithin_eq (empty_good (Nat.le_max_right itemSize 8) two fits memory)
  · rw [← ran]
    apply exec_congr (P := fun r => ∃ w, r = .ok w ∧ ∃ free, Good w free)
    · rintro _ action ⟨w, rfl, free, good⟩
      exact stepWithin_eq good action
    · rintro _ action next stepped ⟨w, rfl, good⟩
      exact step_good stepped good
    · exact ⟨first, rfl, initial⟩
  · obtain ⟨w, rfl, free, good⟩ :=
      exec_orFault (fun _ _ _ stepped good => step_good stepped good) ran initial
    exact ⟨w, rfl, good.inBounds⟩

theorem pool_in_bounds_after_growth :
    ∃ start result, constructWithin 16 3 2 (fun _ => 0) [some 4096, some 8192] = some start ∧
      exec (orFault stepWithin) start
        [.allocate none, .allocate none, .allocate none, .deallocate 4096, .allocate none, .allocate (some 12288)] =
        some result ∧
      ∃ w, result = .ok w ∧ InBounds w := by
  obtain ⟨start, built⟩ : ∃ start, construct 16 3 2 (fun _ => 0) [some 4096, some 8192] = some start := ⟨_, rfl⟩
  obtain ⟨result, ran⟩ : ∃ result, exec (orFault step) start
      [.allocate none, .allocate none, .allocate none, .deallocate 4096, .allocate none, .allocate (some 12288)] =
      some result := by
    obtain rfl := Option.some.inj built
    exact ⟨_, rfl⟩
  exact ⟨start, result,
    pool_in_bounds 16 3 2 (fun _ => 0) [some 4096, some 8192] _ start result (by decide) (by decide) built ran⟩

/-- No block to a chunk, one block to a chunk, and as many as make the product wrap. -/
theorem boundary_arguments_overrun :
    (∃ start, construct 16 0 0 (fun _ => 0) [] = some (.ok start) ∧
      exec (orFault step) (.ok start) [.allocate (some 4096)] = some (.error .outOfBounds)) ∧
    (∃ start, construct 16 0 1 (fun _ => 0) [] = some (.ok start) ∧
      exec (orFault step) (.ok start) [.allocate (some 4096), .allocate none] = some (.error .outOfBounds)) ∧
    ∃ start, construct 16 0 (2 ^ 60 + 1) (fun _ => 0) [] = some (.ok start) ∧
      exec (orFault step) (.ok start) [.allocate (some 4096)] = some (.error .outOfBounds) := by
  refine ⟨⟨{ pool := { itemSize := 16, blockSize := 0 }, memory := fun _ => 0 }, rfl, rfl⟩,
    ⟨{ pool := { itemSize := 16, blockSize := 1 }, memory := fun _ => 0 }, rfl, rfl⟩,
    ⟨{ pool := { itemSize := 16, blockSize := 2 ^ 60 + 1 }, memory := fun _ => 0 }, rfl, rfl⟩⟩

end MemoryPool

end ServerFramework.Base
