import Mathlib.Algebra.Ring.Nat
import ServerFramework.Base.MemoryPool
import Mathlib.Data.Finset.Card
import Mathlib.Order.Interval.Finset.Nat

namespace ServerFramework.Base
open Library

theorem size64_of_lt {n : Nat} (small : n < 2 ^ 64) : size64 n = n := Nat.mod_eq_of_lt small

theorem pred64_of_pos {n : Nat} (positive : 0 < n) (small : n < 2 ^ 64) : pred64 n = n - 1 := by
  rw [pred64, size64]
  omega

namespace MemoryPool

/-! ## The blocks of the chunks -/

def Apart (item a b : Nat) : Prop := a + item ≤ b ∨ b + item ≤ a

def Region.blocks (item : Nat) (region : Region) : List Nat :=
  (List.range (region.size / item)).map fun i => region.base + i * item

def World.blocks (w : World) : List Nat := w.regions.flatMap (Region.blocks w.pool.itemSize)

theorem block_inside {item : Nat} {region : Region} {a : Nat} (member : a ∈ region.blocks item) :
    region.base ≤ a ∧ a + item ≤ region.base + region.size := by
  obtain ⟨i, bound, rfl⟩ := List.mem_map.mp member
  have covered : (i + 1) * item ≤ region.size :=
    (Nat.mul_le_mul_right item (List.mem_range.mp bound)).trans (Nat.div_mul_le_self _ _)
  rw [Nat.succ_mul] at covered
  omega

theorem region_blocks_apart (item : Nat) (region : Region) :
    (region.blocks item).Pairwise (Apart item) := by
  rw [Region.blocks, List.pairwise_map]
  refine List.pairwise_lt_range.imp ?_
  intro i j before
  have stride : (i + 1) * item ≤ j * item := Nat.mul_le_mul_right item before
  rw [Nat.succ_mul] at stride
  left
  omega

theorem Apart.symm {item a b : Nat} (apart : Apart item a b) : Apart item b a := Or.symm apart

theorem nodup_of_apart {item : Nat} {cells : List Nat} (positive : 0 < item)
    (apart : cells.Pairwise (Apart item)) : cells.Nodup := by
  refine apart.imp ?_
  rintro a b sides rfl
  rcases sides with before | after <;> omega

structure Placed (regions : List Region) : Prop where
  bounds : ∀ region ∈ regions, 0 < region.base ∧ region.base + region.size ≤ 2 ^ 64
  disjoint : regions.Pairwise fun region other =>
    region.base + region.size ≤ other.base ∨ other.base + other.size ≤ region.base

theorem Placed.blocks_apart {regions : List Region} (placed : Placed regions) (item : Nat) :
    (regions.flatMap (Region.blocks item)).Pairwise (Apart item) := by
  rw [List.pairwise_flatMap]
  refine ⟨fun region _ => region_blocks_apart item region, placed.disjoint.imp ?_⟩
  intro region other sides a first b second
  have inside := block_inside first
  have outside := block_inside second
  rcases sides with before | after
  · exact .inl (by omega)
  · exact .inr (by omega)

theorem Placed.block_range {regions : List Region} (placed : Placed regions) {item a : Nat}
    (member : a ∈ regions.flatMap (Region.blocks item)) :
    0 < a ∧ a + item ≤ 2 ^ 64 ∧ ∃ region ∈ regions, region.base ≤ a ∧ a + item ≤ region.base + region.size := by
  obtain ⟨region, among, block⟩ := List.mem_flatMap.mp member
  have inside := block_inside block
  have bounds := placed.bounds region among
  exact ⟨by omega, by omega, region, among, inside⟩

theorem Placed.count {regions : List Region} (placed : Placed regions) {item : Nat} (positive : 0 < item) :
    (regions.flatMap (Region.blocks item)).length < 2 ^ 64 := by
  have nodup := nodup_of_apart positive (placed.blocks_apart item)
  have within : (regions.flatMap (Region.blocks item)).toFinset ⊆ Finset.Ioo 0 (2 ^ 64) := by
    intro a member
    have range := placed.block_range (List.mem_toFinset.mp member)
    exact Finset.mem_Ioo.mpr ⟨range.1, by omega⟩
  have bound := Finset.card_le_card within
  rw [List.toFinset_card_of_nodup nodup, Nat.card_Ioo] at bound
  omega

/-! ## The invariant -/

structure Good (w : World) (free : List Nat) : Prop where
  item : 8 ≤ w.pool.itemSize
  block : 2 ≤ w.pool.blockSize
  product : w.pool.itemSize * w.pool.blockSize < 2 ^ 64
  chunks : w.pool.allChunks = (w.regions.map Region.base).reverse
  placed : Placed w.regions
  chain : Chain w.memory.load64 w.pool.freeList free
  cells : (free ++ w.handedOut).Perm w.blocks
  freeBlocks : w.pool.freeBlocks = free.length
  totalBlocks : w.pool.totalBlocks = w.blocks.length

section Invariant

variable {w : World} {free : List Nat} (good : Good w free)
include good

theorem Good.positive : 0 < w.pool.itemSize := Nat.lt_of_lt_of_le (by decide) good.item

theorem Good.apart : (free ++ w.handedOut).Pairwise (Apart w.pool.itemSize) :=
  (good.cells.pairwise_iff fun apart => apart.symm).mpr (good.placed.blocks_apart _)

theorem Good.nodup : (free ++ w.handedOut).Nodup := nodup_of_apart good.positive good.apart

theorem Good.cell_range {a : Nat} (member : a ∈ free ++ w.handedOut) :
    0 < a ∧ a < 2 ^ 64 ∧ w.owns a w.pool.itemSize := by
  have positive := good.positive
  obtain ⟨nonnull, top, owned⟩ := good.placed.block_range (good.cells.mem_iff.mp member)
  exact ⟨nonnull, by omega, owned⟩

theorem Good.freeList_lt : w.pool.freeList < 2 ^ 64 := by
  by_cases null : w.pool.freeList = 0
  · omega
  · obtain ⟨rest, rfl, -⟩ := good.chain.cons_of_nonnull null
    exact (good.cell_range (by simp)).2.1

theorem Good.counts : free.length + w.handedOut.length = w.blocks.length ∧ w.blocks.length < 2 ^ 64 := by
  have length := good.cells.length_eq
  rw [List.length_append] at length
  exact ⟨length, good.placed.count good.positive⟩

end Invariant

theorem World.owns.shrink {w : World} {a n m : Nat} (owned : w.owns a n) (less : m ≤ n) : w.owns a m := by
  obtain ⟨region, among, lower, upper⟩ := owned
  exact ⟨region, among, lower, by omega⟩

theorem store_owned {w : World} {a : Nat} (v : Nat) (owned : w.owns a 8) :
    store w a v = pure { w with memory := w.memory.store64 a v } := if_pos owned

theorem load_owned {w : World} {a : Nat} (owned : w.owns a 8) :
    load w a = pure (w.memory.load64 a) := if_pos owned

theorem memset_owned {w : World} {a n : Nat} (owned : w.owns a n) :
    memset w a n = pure { w with memory := w.memory.overwrite a n fun _ => 0 } := if_pos owned

/-! ## Clients and the free list -/

theorem write_good {w : World} {free : List Nat} {ptr : Nat} (bytes : Memory) (good : Good w free)
    (held : ptr ∈ w.handedOut) :
    Good { w with memory := w.memory.overwrite ptr w.pool.itemSize bytes } free := by
  have chain : Chain (w.memory.overwrite ptr w.pool.itemSize bytes).load64 w.pool.freeList free := by
    refine good.chain.congr fun a member => ?_
    have item := good.item
    have apart := (List.pairwise_append.mp good.apart).2.2 a member ptr held
    apply Memory.load64_overwrite_apart
    rcases apart with before | after
    · exact .inl (by omega)
    · exact .inr after
  exact { good with chain }

theorem takeFirst_good {w : World} {free : List Nat} (good : Good w free) (nonempty : w.pool.freeList ≠ 0) :
    ∃ next rest, takeFirst w = pure (w.pool.freeList, next) ∧ free = w.pool.freeList :: rest ∧
      next.handedOut = w.handedOut ∧
      Good { next with handedOut := w.pool.freeList :: w.handedOut } rest := by
  obtain ⟨rest, rfl, tail⟩ := good.chain.cons_of_nonnull nonempty
  have member : w.pool.freeList ∈ w.pool.freeList :: rest ++ w.handedOut := by simp
  have owned := (good.cell_range member).2.2
  have item := good.item
  have counts := good.counts
  have few := good.freeBlocks
  rw [List.length_cons] at counts few
  have less : pred64 w.pool.freeBlocks = rest.length := by
    rw [few, pred64_of_pos (by omega) (by omega), Nat.add_sub_cancel]
  let popped := setFreeBlocks (setFreeList w (w.memory.load64 w.pool.freeList)) (pred64 w.pool.freeBlocks)
  have still : popped.owns w.pool.freeList w.pool.itemSize := owned
  refine ⟨{ popped with memory := w.memory.overwrite w.pool.freeList w.pool.itemSize fun _ => 0 }, rest,
    ?_, rfl, rfl, ?_⟩
  · rw [takeFirst, load_owned (owned.shrink item), pure_bind]
    change (memset popped w.pool.freeList w.pool.itemSize >>= _) = _
    rw [memset_owned still, pure_bind]
    rfl
  · exact
      { good with
        chain := by
          refine tail.congr fun a among => ?_
          have apart := (List.pairwise_cons.mp good.apart).1 a (List.mem_append_left _ among)
          apply Memory.load64_overwrite_apart
          rcases apart with before | after
          · exact .inr before
          · exact .inl (by omega)
        cells := List.perm_middle.trans good.cells
        freeBlocks := less }

theorem deallocate_good {w : World} {free : List Nat} {ptr : Nat} (good : Good w free)
    (held : ptr ∈ w.handedOut) :
    ∃ next, deallocate w ptr = pure next ∧ next.handedOut = w.handedOut ∧
      Good { next with handedOut := w.handedOut.erase ptr } (ptr :: free) := by
  have member : ptr ∈ free ++ w.handedOut := List.mem_append_right _ held
  obtain ⟨nonnull, small, owned⟩ := good.cell_range member
  have item := good.item
  have counts := good.counts
  have erased := List.length_pos_of_mem held
  have more : size64 (w.pool.freeBlocks + 1) = free.length + 1 := by
    rw [good.freeBlocks, size64_of_lt (by omega)]
  let stored : World := { w with memory := w.memory.store64 ptr w.pool.freeList }
  refine ⟨setFreeBlocks (setFreeList stored ptr) (size64 (w.pool.freeBlocks + 1)), ?_, rfl, ?_⟩
  · rw [deallocate, if_neg (by omega), store_owned _ (owned.shrink item), pure_bind]
  · exact
      { good with
        chain := by
          refine ⟨rfl, by omega, ?_⟩
          change Chain (w.memory.store64 ptr w.pool.freeList).load64
            ((w.memory.store64 ptr w.pool.freeList).load64 ptr) free
          rw [Memory.load64_store64 _ _ good.freeList_lt]
          refine good.chain.congr fun a among => ?_
          have apart := (List.pairwise_append.mp good.apart).2.2 a among ptr held
          apply Memory.load64_store64_apart
          rcases apart with before | after
          · exact .inl (by omega)
          · exact .inr (by omega)
        cells := by
          have moved : (ptr :: free ++ w.handedOut.erase ptr).Perm (free ++ w.handedOut) :=
            List.perm_middle.symm.trans ((List.perm_cons_erase held).symm.append_left free)
          exact moved.trans good.cells
        freeBlocks := more }

/-! ## Linking a chunk -/

theorem blockAt_of_lt {w : World} {base i : Nat} (top : base + i * w.pool.itemSize < 2 ^ 64) :
    blockAt w base i = base + i * w.pool.itemSize := by
  rw [blockAt, size64_of_lt (Nat.lt_of_le_of_lt (Nat.le_add_left _ _) top), size64_of_lt top]

theorem linkBlocks_spec {base n i : Nat} {w : World} (item : 8 ≤ w.pool.itemSize)
    (owned : ∀ j, i ≤ j → j < i + n → w.owns (base + j * w.pool.itemSize) 8)
    (top : base + (i + n) * w.pool.itemSize < 2 ^ 64) :
    ∃ memory : Memory, linkBlocks base n i w = pure { w with memory } ∧
      (∀ j, i ≤ j → j < i + n →
        memory.load64 (base + j * w.pool.itemSize) = base + (j + 1) * w.pool.itemSize) ∧
      ∀ x, x < base + i * w.pool.itemSize ∨ base + (i + n) * w.pool.itemSize ≤ x →
        memory x = w.memory x := by
  induction n generalizing i w with
  | zero => exact ⟨w.memory, rfl, by omega, fun _ _ => rfl⟩
  | succ n ih =>
      have stride : (i + 1) * w.pool.itemSize = i * w.pool.itemSize + w.pool.itemSize := Nat.succ_mul ..
      have further : (i + 1) * w.pool.itemSize ≤ (i + (n + 1)) * w.pool.itemSize :=
        Nat.mul_le_mul_right _ (by omega)
      let next : World :=
        { w with memory := w.memory.store64 (base + i * w.pool.itemSize) (base + (i + 1) * w.pool.itemSize) }
      obtain ⟨memory, run, linked, frame⟩ := ih (i := i + 1) (w := next) item
        (fun j lower upper => owned j (by omega) (by omega)) (by rwa [show i + 1 + n = i + (n + 1) by omega])
      rw [show i + 1 + n = i + (n + 1) by omega] at linked frame
      have first : memory.load64 (base + i * w.pool.itemSize) = base + (i + 1) * w.pool.itemSize := by
        rw [← Memory.load64_store64 w.memory (base + i * w.pool.itemSize) (v := base + (i + 1) * w.pool.itemSize)
          (by omega)]
        exact Memory.load64_congr fun x _ upper => frame x (.inl (by dsimp only [next]; omega))
      refine ⟨memory, ?_, ?_, ?_⟩
      · rw [linkBlocks, blockAt_of_lt (by omega), blockAt_of_lt (by omega),
          store_owned _ (owned i (Nat.le_refl i) (by omega)), pure_bind]
        exact run
      · intro j lower upper
        rcases Nat.eq_or_lt_of_le lower with rfl | later
        · exact first
        · exact linked j later upper
      · intro x outside
        rw [frame x (by dsimp only [next]; omega)]
        exact Memory.store64_outside _ _ _ (by omega)

theorem thread_spec (w : World) (base i last p : Nat) (rest : List Nat) (item : 8 ≤ w.pool.itemSize)
    (order : i ≤ last) (positive : 0 < base)
    (owned : ∀ j, i ≤ j → j ≤ last → w.owns (base + j * w.pool.itemSize) 8)
    (top : base + last * w.pool.itemSize + 8 ≤ 2 ^ 64) (small : p < 2 ^ 64)
    (chain : Chain w.memory.load64 p rest)
    (apart : ∀ a ∈ rest, a + 8 ≤ base + i * w.pool.itemSize ∨ base + (last + 1) * w.pool.itemSize ≤ a) :
    ∃ linked memory : Memory,
      linkBlocks base (last - i) i w = pure { w with memory := linked } ∧
      store { w with memory := linked } (blockAt w base last) p = pure { w with memory } ∧
      Chain memory.load64 (base + i * w.pool.itemSize)
        ((List.range' i (last - i + 1)).map (fun j => base + j * w.pool.itemSize) ++ rest) ∧
      ∀ x, x < base + i * w.pool.itemSize ∨ base + (last + 1) * w.pool.itemSize ≤ x →
        memory x = w.memory x := by
  have stop : i + (last - i) = last := by omega
  have stride : (last + 1) * w.pool.itemSize = last * w.pool.itemSize + w.pool.itemSize := Nat.succ_mul ..
  have reach : i * w.pool.itemSize ≤ last * w.pool.itemSize := Nat.mul_le_mul_right _ order
  obtain ⟨linked, run, links, frame⟩ := linkBlocks_spec (n := last - i) item
    (fun j lower upper => owned j lower (by omega)) (by rw [stop]; omega)
  rw [stop] at links frame
  let next : World := { w with memory := linked }
  have held : next.owns (base + last * w.pool.itemSize) 8 := owned last order (Nat.le_refl last)
  refine ⟨linked, linked.store64 (base + last * w.pool.itemSize) p, run, ?_, ?_, ?_⟩
  · rw [blockAt_of_lt (by omega)]
    exact store_owned p held
  · apply chain_progression (p := p) positive
    · intro j lower upper
      have before : (j + 1) * w.pool.itemSize ≤ last * w.pool.itemSize :=
        Nat.mul_le_mul_right _ (by omega)
      rw [Nat.succ_mul] at before
      rw [Memory.load64_store64_apart _ _ _ (.inl (by omega))]
      exact links j lower (by omega)
    · rw [stop]
      exact Memory.load64_store64 _ _ small
    · refine chain.congr fun a among => ?_
      have away := apart a among
      rw [Memory.load64_store64_apart _ _ _ (by omega)]
      exact Memory.load64_congr fun x lower upper => frame x (by omega)
  · intro x outside
    rw [Memory.store64_outside _ _ _ (by omega)]
    exact frame x (by omega)

/-! ## New chunks -/

theorem Placed.cons {w : World} {region : Region} (placed : Placed w.regions) (fresh : w.fresh region) :
    Placed (region :: w.regions) where
  bounds := by
    intro other member
    rcases List.mem_cons.mp member with rfl | member
    · exact ⟨fresh.1, fresh.2.1⟩
    · exact placed.bounds other member
  disjoint := .cons fresh.2.2 placed.disjoint

theorem region_blocks_eq {item : Nat} (base count : Nat) (positive : 0 < item) :
    Region.blocks item ⟨base, item * count⟩ = (List.range count).map fun j => base + j * item := by
  rw [Region.blocks, Nat.mul_div_cancel_left _ positive]

theorem block_owned (w : World) (base : Nat) {count j : Nat} (inside : j < count) :
    ({ w with regions := ⟨base, w.pool.itemSize * count⟩ :: w.regions } : World).owns
      (base + j * w.pool.itemSize) w.pool.itemSize := by
  have covered : (j + 1) * w.pool.itemSize ≤ count * w.pool.itemSize := Nat.mul_le_mul_right _ inside
  rw [Nat.succ_mul, Nat.mul_comm count] at covered
  exact ⟨_, List.mem_cons_self .., by dsimp only; omega, by dsimp only; omega⟩

theorem Good.chunks_snoc {w : World} {free : List Nat} (good : Good w free) (region : Region) :
    w.pool.allChunks ++ [region.base] = ((region :: w.regions).map Region.base).reverse := by
  rw [good.chunks, List.map_cons, List.reverse_cons]

section Chunks

variable {w : World} {free : List Nat} {base count : Nat} (good : Good w free)
  (fresh : w.fresh ⟨base, w.pool.itemSize * count⟩)
include good fresh

theorem Good.fresh_apart {a : Nat} (member : a ∈ free ++ w.handedOut) :
    a + w.pool.itemSize ≤ base ∨ base + w.pool.itemSize * count ≤ a := by
  obtain ⟨-, -, region, among, lower, upper⟩ := good.cell_range member
  have sides := fresh.2.2 region among
  dsimp only at sides
  omega

theorem Good.chunk_counts :
    size64 (w.pool.totalBlocks + count) =
      ((⟨base, w.pool.itemSize * count⟩ :: w.regions).flatMap (Region.blocks w.pool.itemSize)).length ∧
    size64 (w.pool.freeBlocks + count) = count + free.length ∧ count + free.length < 2 ^ 64 := by
  have bound := (good.placed.cons fresh).count good.positive
  have counts := good.counts
  have total := good.totalBlocks
  have few := good.freeBlocks
  have split : ((⟨base, w.pool.itemSize * count⟩ :: w.regions).flatMap
      (Region.blocks w.pool.itemSize)).length = count + w.blocks.length := by
    rw [List.flatMap_cons, List.length_append, region_blocks_eq base count good.positive,
      List.length_map, List.length_range]
    rfl
  rw [split] at bound ⊢
  rw [size64_of_lt (by omega), size64_of_lt (by omega)]
  omega

theorem addBatch_good (positive : 0 < count) (few : count < 2 ^ 64) :
    ∃ next, addBatch { w with regions := ⟨base, w.pool.itemSize * count⟩ :: w.regions } base count =
        pure next ∧
      next.handedOut = w.handedOut ∧ next.pool.blockSize = w.pool.blockSize ∧
      next.pool.itemSize = w.pool.itemSize ∧ ∃ cells, Good next cells := by
  let region : Region := ⟨base, w.pool.itemSize * count⟩
  let grown := addChunk { w with regions := region :: w.regions } base count
  have item := good.item
  obtain ⟨total, added, -⟩ := good.chunk_counts fresh
  have last : pred64 count = count - 1 := pred64_of_pos positive few
  have whole : (count - 1 + 1) * w.pool.itemSize = w.pool.itemSize * count := by
    rw [Nat.sub_add_cancel positive, Nat.mul_comm]
  have stride : (count - 1 + 1) * w.pool.itemSize = (count - 1) * w.pool.itemSize + w.pool.itemSize :=
    Nat.succ_mul ..
  have top : base + w.pool.itemSize * count ≤ 2 ^ 64 := fresh.2.1
  obtain ⟨linked, memory, links, stores, chain, -⟩ :=
    thread_spec grown base 0 (count - 1) w.pool.freeList free item (Nat.zero_le _) fresh.1
      (fun j _ upper => (block_owned w base (by omega)).shrink item)
      (by dsimp only [grown, addChunk]; omega) good.freeList_lt good.chain
      (fun a member => by
        have apart := good.fresh_apart fresh (List.mem_append_left _ member)
        dsimp only [grown, addChunk]
        omega)
  rw [Nat.sub_zero, Nat.sub_add_cancel positive, ← List.range_eq_range', Nat.zero_mul, Nat.add_zero] at chain
  rw [Nat.sub_zero] at links
  refine ⟨setFreeList { grown with memory } base, ?_, rfl, rfl, rfl,
    (List.range count).map (fun j => base + j * w.pool.itemSize) ++ free, ?_⟩
  · change (linkBlocks base (pred64 count) 0 grown >>= fun w =>
      store w (blockAt w base (pred64 count)) w.pool.freeList >>= _) = _
    rw [last, links, pure_bind]
    change (store { grown with memory := linked } (blockAt grown base (count - 1)) w.pool.freeList >>= _) = _
    rw [stores, pure_bind]
  · exact
      { good with
        chunks := good.chunks_snoc region
        placed := good.placed.cons fresh
        chain := chain
        cells := by
          change (_ ++ free ++ w.handedOut).Perm ((region :: w.regions).flatMap _)
          rw [List.flatMap_cons, ← region_blocks_eq base count good.positive, List.append_assoc]
          exact good.cells.append_left _
        freeBlocks := by
          rw [List.length_append, List.length_map, List.length_range]
          exact added
        totalBlocks := total }

theorem expand_good (empty : free = []) (size : count = w.pool.blockSize) :
    ∃ next, expand { w with regions := ⟨base, w.pool.itemSize * count⟩ :: w.regions } base =
        pure (base, next) ∧
      next.handedOut = w.handedOut ∧ ∃ cells, Good { next with handedOut := base :: w.handedOut } cells := by
  subst empty
  let region : Region := ⟨base, w.pool.itemSize * count⟩
  let grown := setFreeList (addChunk { w with regions := region :: w.regions } base count)
    (base + 1 * w.pool.itemSize)
  have item := good.item
  have two := good.block
  obtain ⟨total, added, room⟩ := good.chunk_counts fresh
  rw [List.length_nil, Nat.add_zero] at added room
  have last : pred64 count = count - 1 := pred64_of_pos (by omega) room
  have whole : (count - 1 + 1) * w.pool.itemSize = w.pool.itemSize * count := by
    rw [Nat.sub_add_cancel (by omega), Nat.mul_comm]
  have stride : (count - 1 + 1) * w.pool.itemSize = (count - 1) * w.pool.itemSize + w.pool.itemSize :=
    Nat.succ_mul ..
  have second : 1 * w.pool.itemSize ≤ (count - 1) * w.pool.itemSize := Nat.mul_le_mul_right _ (by omega)
  have top : base + w.pool.itemSize * count ≤ 2 ^ 64 := fresh.2.1
  obtain ⟨linked, memory, links, stores, chain, frame⟩ :=
    thread_spec grown base 1 (count - 1) 0 [] item (by omega) fresh.1
      (fun j _ upper => (block_owned w base (by omega)).shrink item)
      (by dsimp only [grown, setFreeList, addChunk]; omega) (by omega) rfl (by simp)
  let cleared := memory.overwrite base w.pool.itemSize fun _ => 0
  rw [show count - 1 - 1 + 1 = count - 1 by omega, List.append_nil] at chain
  refine ⟨setFreeBlocks { grown with memory := cleared } (count - 1), ?_, rfl,
    (List.range' 1 (count - 1)).map (fun j => base + j * w.pool.itemSize), ?_⟩
  · have first : blockAt (addChunk { w with regions := region :: w.regions } base count) base 1 =
        base + 1 * w.pool.itemSize := blockAt_of_lt (by dsimp only [addChunk]; omega)
    have owned : ({ grown with memory } : World).owns base w.pool.itemSize := by
      have block := block_owned w base (show 0 < count by omega)
      rwa [Nat.zero_mul, Nat.add_zero] at block
    have left : pred64 grown.pool.freeBlocks = count - 1 := by
      change pred64 (size64 (w.pool.freeBlocks + count)) = count - 1
      rw [added, last]
    have begun : setFreeList (addChunk { w with regions := region :: w.regions } base count)
        (blockAt (addChunk { w with regions := region :: w.regions } base count) base 1) = grown := by
      rw [first]
    rw [expand]
    dsimp only
    rw [← size, begun, last, links, pure_bind]
    change (store { grown with memory := linked } (blockAt grown base (count - 1)) 0 >>= _) = _
    rw [stores, pure_bind]
    change (memset { grown with memory } base w.pool.itemSize >>= _) = _
    rw [memset_owned owned, pure_bind]
    change pure (base, setFreeBlocks _ (pred64 grown.pool.freeBlocks)) = _
    rw [left]
  · exact
      { good with
        chunks := good.chunks_snoc region
        placed := good.placed.cons fresh
        chain := by
          refine chain.congr fun a member => ?_
          obtain ⟨j, range, rfl⟩ := List.mem_map.mp member
          have behind : 1 * w.pool.itemSize ≤ j * w.pool.itemSize :=
            Nat.mul_le_mul_right _ (List.mem_range'_1.mp range).1
          exact Memory.load64_overwrite_apart _ _ _ _
            (.inr (by dsimp only [grown, setFreeList, addChunk]; omega))
        cells := by
          have split : region.blocks w.pool.itemSize =
              base :: (List.range' 1 (count - 1)).map fun j => base + j * w.pool.itemSize := by
            obtain ⟨k, rfl⟩ : ∃ k, count = k + 1 := ⟨count - 1, by omega⟩
            rw [region_blocks_eq base _ good.positive, List.range_eq_range', List.range'_succ,
              List.map_cons, Nat.zero_mul]
            rfl
          change (_ ++ base :: w.handedOut).Perm
            ((region :: w.regions).flatMap (Region.blocks w.pool.itemSize))
          rw [List.flatMap_cons, split]
          exact List.perm_middle.trans ((good.cells.append_left _).cons base)
        freeBlocks := by
          rw [List.length_map, List.length_range']
          rfl
        totalBlocks := total }

end Chunks

/-! ## Whole calls and runs -/

theorem malloc_fresh {w : World} {base size : Nat} (fresh : w.fresh ⟨base, size⟩) :
    malloc w size (some base) = pure (some base, { w with regions := ⟨base, size⟩ :: w.regions }) :=
  if_pos fresh

theorem malloc_stale {w : World} {base size : Nat} (stale : ¬ w.fresh ⟨base, size⟩) :
    malloc w size (some base) = ExceptT.mk none := if_neg stale

theorem bind_none {α β : Type} (f : α → Attempt β) : (ExceptT.mk none >>= f) = (none : Option (Except Trap β)) :=
  rfl

theorem preAllocateRound_good {w : World} {free : List Nat} {left : Nat} {answer : Option Nat}
    {r : Except Trap (Option World)} (good : Good w free) (positive : 0 < left)
    (returned : preAllocateRound w left answer = some r) :
    r = .ok none ∨ ∃ next, r = .ok (some next) ∧ next.handedOut = w.handedOut ∧
      next.pool.blockSize = w.pool.blockSize ∧ ∃ cells, Good next cells := by
  have two := good.block
  have product := good.product
  have item := good.item
  have batch : w.pool.itemSize * min left w.pool.blockSize ≤ w.pool.itemSize * w.pool.blockSize :=
    Nat.mul_le_mul_left _ (Nat.min_le_right _ _)
  have small : w.pool.blockSize ≤ w.pool.itemSize * w.pool.blockSize :=
    Nat.le_mul_of_pos_left _ (by omega)
  rw [preAllocateRound, size64_of_lt (by omega)] at returned
  cases answer with
  | none =>
      left
      exact (Option.some.inj returned).symm
  | some base =>
      by_cases fresh : w.fresh ⟨base, w.pool.itemSize * min left w.pool.blockSize⟩
      · obtain ⟨next, run, held, blocks, -, cells⟩ := addBatch_good good fresh (by omega) (by omega)
        rw [malloc_fresh fresh, pure_bind] at returned
        dsimp only at returned
        rw [run, pure_bind] at returned
        exact .inr ⟨next, (Option.some.inj returned).symm, held, blocks, cells⟩
      · rw [malloc_stale fresh, bind_none] at returned
        cases returned

theorem preAllocateLoop_good {fuel left : Nat} {w : World} {free : List Nat}
    {answers : List (Option Nat)} {r : Except Trap World} (good : Good w free) (enough : left < fuel)
    (returned : preAllocateLoop fuel w left answers = some r) :
    ∃ next, r = .ok next ∧ next.handedOut = w.handedOut ∧ ∃ cells, Good next cells := by
  induction fuel generalizing left w free answers with
  | zero => exact absurd enough (Nat.not_lt_zero _)
  | succ fuel ih =>
      rw [preAllocateLoop] at returned
      split at returned
      · exact ⟨w, (Option.some.inj returned).symm, rfl, free, good⟩
      · rename_i more
        have two := good.block
        cases round : preAllocateRound w left answers.head?.join with
        | none =>
            rw [round] at returned
            cases returned
        | some answer =>
            rcases preAllocateRound_good good (by omega) round with rfl | ⟨next, rfl, held, -, cells, kept⟩
            · rw [round] at returned
              exact ⟨w, (Option.some.inj returned).symm, rfl, free, good⟩
            · rw [round] at returned
              obtain ⟨final, ended, same, last⟩ := ih kept (by omega) returned
              exact ⟨final, ended, same.trans held, last⟩

theorem allocate_good {w : World} {free : List Nat} {answer : Option Nat} {r : Except Trap (Nat × World)}
    (good : Good w free) (returned : allocate w answer = some r) :
    (r = .ok (0, w)) ∨ ∃ ptr next, r = .ok (ptr, next) ∧ ptr ≠ 0 ∧ ptr ∉ w.handedOut ∧
      next.handedOut = w.handedOut ∧ ∃ cells, Good { next with handedOut := ptr :: w.handedOut } cells := by
  rw [allocate] at returned
  split at returned
  · rename_i nonempty
    obtain ⟨next, rest, run, rfl, held, kept⟩ := takeFirst_good good nonempty
    rw [run] at returned
    have nodup := good.nodup
    rw [List.cons_append, List.nodup_cons, List.mem_append, not_or] at nodup
    exact .inr ⟨_, next, (Option.some.inj returned).symm, nonempty, nodup.1.2, held, rest, kept⟩
  · rename_i empty
    rw [size64_of_lt good.product] at returned
    cases answer with
    | none =>
        left
        exact (Option.some.inj returned).symm
    | some base =>
        by_cases fresh : w.fresh ⟨base, w.pool.itemSize * w.pool.blockSize⟩
        · have none_left : free = [] := by
            have chain := good.chain
            rw [not_not.mp empty] at chain
            exact chain.nil_of_null
          obtain ⟨next, run, held, cells, kept⟩ := expand_good good fresh none_left rfl
          rw [malloc_fresh fresh, pure_bind] at returned
          dsimp only at returned
          rw [run] at returned
          refine .inr ⟨base, next, (Option.some.inj returned).symm, Nat.ne_of_gt fresh.1, ?_, held, cells, kept⟩
          intro member
          have apart := good.fresh_apart fresh (List.mem_append_right _ member)
          have positive : 0 < w.pool.itemSize * w.pool.blockSize :=
            Nat.mul_pos good.positive (Nat.lt_of_lt_of_le (by decide) good.block)
          have item := good.positive
          omega
        · rw [malloc_stale fresh, bind_none] at returned
          cases returned

theorem step_good {w : World} {action : Action} {r : Except Trap World}
    (stepped : step w action = some r) (good : ∃ free, Good w free) :
    ∃ next, r = .ok next ∧ ∃ free, Good next free := by
  obtain ⟨free, good⟩ := good
  cases action with
  | allocate answer =>
      rw [step] at stepped
      cases call : allocate w answer with
      | none =>
          rw [call] at stepped
          cases stepped
      | some returned =>
          rw [call] at stepped
          rcases allocate_good good call with rfl | ⟨ptr, next, rfl, nonnull, -, held, cells, kept⟩
          · exact ⟨w, (Option.some.inj stepped).symm, free, good⟩
          · obtain rfl : _ = r := Option.some.inj stepped
            refine ⟨{ next with handedOut := ptr :: w.handedOut }, ?_, cells, kept⟩
            rw [← held]
            exact congrArg Except.ok (if_neg nonnull)
  | deallocate ptr =>
      rw [step] at stepped
      split at stepped
      · rename_i permitted
        by_cases null : ptr = 0
        · subst null
          have never : 0 ∉ w.handedOut := fun member =>
            absurd (good.cell_range (List.mem_append_right _ member)).1 (Nat.lt_irrefl 0)
          have ended : Except.ok { w with handedOut := w.handedOut.erase 0 } = r := Option.some.inj stepped
          rw [List.erase_of_not_mem never] at ended
          exact ⟨w, ended.symm, free, good⟩
        · obtain ⟨next, run, held, kept⟩ := deallocate_good good (permitted.resolve_left null)
          rw [run, pure_bind] at stepped
          refine ⟨_, (Option.some.inj stepped).symm, ptr :: free, ?_⟩
          rwa [held]
      · cases stepped
  | preAllocate count answers =>
      obtain ⟨next, ended, -, kept⟩ := preAllocateLoop_good good (Nat.lt_succ_self count) stepped
      exact ⟨next, ended, kept⟩
  | write ptr bytes =>
      rw [step] at stepped
      split at stepped
      · rename_i held
        exact ⟨_, (Option.some.inj stepped).symm, free, write_good bytes good held⟩
      · cases stepped

theorem empty_good {itemSize blockSize : Nat} (item : 8 ≤ itemSize) (block : 2 ≤ blockSize)
    (product : itemSize * blockSize < 2 ^ 64) (memory : Memory) :
    Good { pool := { itemSize, blockSize }, memory } [] where
  item := item
  block := block
  product := product
  chunks := rfl
  placed := ⟨by simp, .nil⟩
  chain := rfl
  cells := .nil
  freeBlocks := rfl
  totalBlocks := rfl

theorem construct_good {itemSize preAlloc blockSize : Nat} {memory : Memory} {answers : List (Option Nat)}
    {start : Except Trap World} (two : 2 ≤ blockSize) (fits : max itemSize 8 * blockSize < 2 ^ 64)
    (built : construct itemSize preAlloc blockSize memory answers = some start) :
    ∃ w, start = .ok w ∧ ∃ free, Good w free := by
  have rounded : (if itemSize < 8 then 8 else itemSize) = max itemSize 8 := by
    split <;> omega
  rw [construct, rounded] at built
  have empty := empty_good (Nat.le_max_right itemSize 8) two fits memory
  obtain ⟨next, ended, -, kept⟩ := preAllocateLoop_good empty (Nat.lt_succ_self preAlloc) built
  exact ⟨next, ended, kept⟩

structure Represents (w : World) (free : List Nat) : Prop where
  chunks : w.pool.allChunks = (w.regions.map Region.base).reverse
  chain : Chain w.memory.load64 w.pool.freeList free
  nodup : free.Nodup
  inside : ∀ a ∈ free, ∃ region ∈ w.regions, ∃ k,
    a = region.base + k * w.pool.itemSize ∧ a + w.pool.itemSize ≤ region.base + region.size
  apart : ∀ a ∈ free, a ∉ w.handedOut
  freeBlocks : w.pool.freeBlocks = free.length
  totalBlocks : w.pool.totalBlocks = (w.regions.map fun region => region.size / w.pool.itemSize).sum
  usedBlocks : w.pool.usedBlocks = w.handedOut.length
  allocates : ∀ answer ptr next, allocate w answer = some (.ok (ptr, next)) → ptr ≠ 0 → ptr ∉ w.handedOut

theorem Good.represents {w : World} {free : List Nat} (good : Good w free) : Represents w free where
  chunks := good.chunks
  chain := good.chain
  nodup := good.nodup.of_append_left
  inside := by
    intro a member
    obtain ⟨region, among, block⟩ := List.mem_flatMap.mp (good.cells.mem_iff.mp (List.mem_append_left _ member))
    obtain ⟨k, -, position⟩ := List.mem_map.mp block
    exact ⟨region, among, k, position.symm, (block_inside block).2⟩
  apart a member held := List.disjoint_of_nodup_append good.nodup member held
  freeBlocks := good.freeBlocks
  totalBlocks := by
    rw [good.totalBlocks, World.blocks, List.length_flatMap]
    simp [Region.blocks]
  usedBlocks := by
    have counts := good.counts
    rw [usedBlocks, size64, good.totalBlocks, good.freeBlocks]
    omega
  allocates := by
    intro answer ptr next returned nonnull
    rcases allocate_good good returned with same | ⟨other, after, same, -, unused, -⟩
    · obtain ⟨rfl, rfl⟩ := by simpa using same
      exact absurd rfl nonnull
    · obtain ⟨rfl, rfl⟩ := by simpa using same
      exact unused

theorem pool_represents (itemSize preAlloc blockSize : Nat) (memory : Memory)
    (answers : List (Option Nat)) (actions : List Action) (start result : Except Trap World)
    (two : 2 ≤ blockSize) (fits : max itemSize 8 * blockSize < 2 ^ 64)
    (built : construct itemSize preAlloc blockSize memory answers = some start)
    (ran : exec (orFault step) start actions = some result) :
    ∃ w, result = .ok w ∧ ∃ free, Represents w free := by
  obtain ⟨first, rfl, initial⟩ := construct_good two fits built
  obtain ⟨w, rfl, free, good⟩ :=
    exec_orFault (fun _ _ _ stepped good => step_good stepped good) ran initial
  exact ⟨w, rfl, free, good.represents⟩

theorem pool_represents_after_reuse :
    ∃ start result w free,
      construct 16 2 2 (fun _ => 0) [some 4096] = some start ∧
      exec (orFault step) start
        [.allocate none, .write 4096 (fun _ => 255), .allocate none, .allocate (some 8192),
          .deallocate 4096] = some result ∧
      result = .ok w ∧ Represents w free := by
  obtain ⟨start, built⟩ : ∃ start, construct 16 2 2 (fun _ => 0) [some 4096] = some start := ⟨_, rfl⟩
  obtain ⟨result, ran⟩ : ∃ result, exec (orFault step) start
      [.allocate none, .write 4096 (fun _ => 255), .allocate none, .allocate (some 8192),
        .deallocate 4096] = some result := by
    obtain rfl := Option.some.inj built
    exact ⟨_, rfl⟩
  obtain ⟨w, ended, free, holds⟩ :=
    pool_represents 16 2 2 (fun _ => 0) [some 4096] _ start result (by decide) (by decide) built ran
  exact ⟨start, result, w, free, built, ran, ended, holds⟩

/-- One-byte items are rounded up to eight after all, and then the chunk's size wraps to eight. -/
theorem wrapped_chunk_overrun :
    2 ≤ 2 ^ 61 + 1 ∧ 1 * (2 ^ 61 + 1) < 2 ^ 64 ∧
    ∃ start, construct 1 0 (2 ^ 61 + 1) (fun _ => 0) [] = some (.ok start) ∧
      exec (orFault step) (.ok start) [.allocate (some 4096)] = some (.error .outOfBounds) := by
  refine ⟨by decide, by decide, { pool := { itemSize := 8, blockSize := 2 ^ 61 + 1 }, memory := fun _ => 0 },
    rfl, rfl⟩

end MemoryPool

end ServerFramework.Base
