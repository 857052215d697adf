import ServerFramework.Base.SharedPools
import ServerFramework.Proof.Base.PoolBounds

namespace ServerFramework.Base
open Library

namespace MemoryPool

/-! ## Where a call writes -/

theorem bind_eq_ok {α β : Type} {call : Attempt α} {rest : α → Attempt β} {b : β} :
    (call >>= rest) = some (.ok b) ↔ ∃ a, call = some (.ok a) ∧ rest a = some (.ok b) := by
  constructor
  · intro returned
    cases first : call with
    | none =>
        rw [first] at returned
        cases returned
    | some result =>
        rw [first] at returned
        cases result with
        | error trap => cases returned
        | ok a => exact ⟨a, rfl, returned⟩
  · rintro ⟨a, rfl, returned⟩
    exact returned

theorem pure_eq_ok {α : Type} {a b : α} : (pure a : Attempt α) = some (.ok b) ↔ a = b :=
  ⟨fun same => Except.ok.inj (Option.some.inj same), fun same => by rw [same]; rfl⟩

theorem changed_early_or_late {m mid m' : Memory} {x : Nat} (changed : m' x ≠ m x) : mid x ≠ m x ∨ m' x ≠ mid x := by
  by_cases early : mid x = m x
  · exact .inr (by rwa [early])
  · exact .inl early

structure Writes (w next : World) : Prop where
  same : next = { w with memory := next.memory }
  inside : ∀ x, next.memory x ≠ w.memory x → w.owns x 1

theorem Writes.refl (w : World) : Writes w w := ⟨rfl, fun _ changed => absurd rfl changed⟩

theorem Writes.trans {w mid next : World} (first : Writes w mid) (second : Writes mid next) : Writes w next where
  same := by rw [second.same, first.same]
  inside := by
    intro x changed
    rcases changed_early_or_late changed with early | late
    · exact first.inside x early
    · have owned := second.inside x late
      rw [first.same] at owned
      exact owned

theorem store_eq {w next : World} {a v : Nat} (stored : store w a v = some (.ok next)) :
    next = { w with memory := w.memory.store64 a v } := by
  rw [store] at stored
  split at stored
  · cases stored
    rfl
  · cases stored

theorem store_writes {w next : World} {a v : Nat} (stored : store w a v = some (.ok next)) : Writes w next := by
  obtain rfl := store_eq stored
  rw [store] at stored
  split at stored
  · rename_i owned
    refine ⟨rfl, fun x changed => ?_⟩
    have inside : a ≤ x ∧ x < a + 8 := by
      by_contra outside
      exact changed (Memory.store64_outside _ _ _ (by omega))
    obtain ⟨region, among, lower, upper⟩ := owned
    exact ⟨region, among, by omega, by omega⟩
  · cases stored

theorem memset_eq {w next : World} {a n : Nat} (cleared : memset w a n = some (.ok next)) :
    next = { w with memory := w.memory.overwrite a n fun _ => 0 } := by
  rw [memset] at cleared
  split at cleared
  · cases cleared
    rfl
  · cases cleared

theorem linkBlocks_writes {base n i : Nat} {w next : World} (linked : linkBlocks base n i w = some (.ok next)) :
    Writes w next := by
  induction n generalizing i w with
  | zero =>
      obtain rfl := pure_eq_ok.mp linked
      exact .refl w
  | succ n ih =>
      rw [linkBlocks] at linked
      obtain ⟨mid, stored, rest⟩ := bind_eq_ok.mp linked
      exact (store_writes stored).trans (ih rest)

/-- Only the newest chunk has been written to. -/
theorem within_writes {write : World → Attempt World} {w next : World}
    (writes : ∀ w next, write w = some (.ok next) → Writes w next) (wrote : within write w = some (.ok next)) :
    next = { w with memory := next.memory } ∧
      ∀ x, next.memory x ≠ w.memory x →
        ∃ region ∈ w.regions.take 1, region.base ≤ x ∧ x < region.base + region.size := by
  rw [within] at wrote
  obtain ⟨mid, written, rest⟩ := bind_eq_ok.mp wrote
  obtain rfl := pure_eq_ok.mp rest
  have inner := writes _ _ written
  refine ⟨by rw [inner.same], fun x changed => ?_⟩
  obtain ⟨region, among, lower, upper⟩ := inner.inside x changed
  exact ⟨region, among, lower, by omega⟩

/-- The pool has a new chunk, and nothing outside it is different. -/
structure Grown (region : Region) (w next : World) : Prop where
  itemSize : next.pool.itemSize = w.pool.itemSize
  regions : next.regions = region :: w.regions
  inside : ∀ x, next.memory x ≠ w.memory x → region.base ≤ x ∧ x < region.base + region.size

-- Rewriting with these three keeps the unifier from comparing two counts of free blocks.
@[simp]
theorem setFreeBlocks_itemSize (w : World) (n : Nat) : (setFreeBlocks w n).pool.itemSize = w.pool.itemSize := rfl

@[simp]
theorem setFreeBlocks_regions (w : World) (n : Nat) : (setFreeBlocks w n).regions = w.regions := rfl

@[simp]
theorem setFreeBlocks_memory (w : World) (n : Nat) : (setFreeBlocks w n).memory = w.memory := rfl

theorem threaded_inside {region : Region} {w linked stored : World} {base n i : Nat} {a v : World → Nat}
    (newest : w.regions.take 1 = [region]) (link : within (linkBlocks base n i) w = some (.ok linked))
    (last : within (fun w => store w (a w) (v w)) linked = some (.ok stored)) :
    stored = { w with memory := stored.memory } ∧
      ∀ x, stored.memory x ≠ w.memory x → region.base ≤ x ∧ x < region.base + region.size := by
  obtain ⟨first, links⟩ := within_writes (fun _ _ => linkBlocks_writes) link
  obtain ⟨second, stores⟩ := within_writes (fun _ _ => store_writes) last
  refine ⟨by rw [second, first], fun x changed => ?_⟩
  rcases changed_early_or_late changed with early | late
  · obtain ⟨other, among, bounds⟩ := links x early
    rw [newest, List.mem_singleton] at among
    rwa [among] at bounds
  · obtain ⟨other, among, bounds⟩ := stores x late
    rw [first, newest, List.mem_singleton] at among
    rwa [among] at bounds

theorem addBatchWithin_grown {w next : World} {region : Region} {batch : Nat}
    (added : addBatchWithin { w with regions := region :: w.regions } region.base batch = some (.ok next)) :
    Grown region w next := by
  rw [addBatchWithin] at added
  generalize pred64 batch = last at added
  generalize chunk : addChunk { w with regions := region :: w.regions } region.base batch = grown at added
  have item : grown.pool.itemSize = w.pool.itemSize := by rw [← chunk]; rfl
  have regions : grown.regions = region :: w.regions := by rw [← chunk]; rfl
  have memory : grown.memory = w.memory := by rw [← chunk]; rfl
  obtain ⟨linked, link, rest⟩ := bind_eq_ok.mp added
  obtain ⟨stored, store, rest⟩ := bind_eq_ok.mp rest
  obtain rfl := pure_eq_ok.mp rest
  have newest : grown.regions.take 1 = [region] := by rw [regions]; rfl
  obtain ⟨same, inside⟩ := threaded_inside newest link store
  rw [memory] at inside
  refine ⟨?_, ?_, inside⟩
  · rw [setFreeList, same]
    exact item
  · rw [setFreeList, same]
    exact regions

theorem expandWithin_grown {w next : World} {region : Region} {ptr : Nat} (item : w.pool.itemSize ≤ region.size)
    (expanded : expandWithin { w with regions := region :: w.regions } region.base = some (.ok (ptr, next))) :
    ptr = region.base ∧ Grown region w next ∧ ∀ x, ptr ≤ x → x < ptr + w.pool.itemSize → next.memory x = 0 := by
  rw [expandWithin] at expanded
  generalize pred64 w.pool.blockSize = last at expanded
  generalize chunk : setFreeList (addChunk { w with regions := region :: w.regions } region.base w.pool.blockSize)
    (blockAt (addChunk { w with regions := region :: w.regions } region.base w.pool.blockSize) region.base 1) = grown
    at expanded
  have size : grown.pool.itemSize = w.pool.itemSize := by rw [← chunk]; rfl
  have regions : grown.regions = region :: w.regions := by rw [← chunk]; rfl
  have memory : grown.memory = w.memory := by rw [← chunk]; rfl
  obtain ⟨linked, link, rest⟩ := bind_eq_ok.mp expanded
  obtain ⟨stored, store, rest⟩ := bind_eq_ok.mp rest
  obtain ⟨cleared, clear, rest⟩ := bind_eq_ok.mp rest
  obtain ⟨rfl, rfl⟩ := Prod.mk.inj (pure_eq_ok.mp rest)
  have newest : grown.regions.take 1 = [region] := by rw [regions]; rfl
  obtain ⟨same, inside⟩ := threaded_inside newest link store
  have kept : stored.pool.itemSize = w.pool.itemSize := by rw [same]; exact size
  rw [memory] at inside
  have zeroed := memset_eq clear
  have size : cleared.pool.itemSize = w.pool.itemSize := by rw [zeroed]; exact kept
  have chunks : cleared.regions = region :: w.regions := by rw [zeroed, same]; exact regions
  have bytes : cleared.memory = stored.memory.overwrite region.base w.pool.itemSize fun _ => 0 := by
    rw [zeroed, ← kept]
  refine ⟨rfl, ⟨?_, ?_, ?_⟩, ?_⟩
  · rw [setFreeBlocks_itemSize, size]
  · rw [setFreeBlocks_regions, chunks]
  · intro x changed
    rw [setFreeBlocks_memory, bytes] at changed
    by_cases first : region.base ≤ x ∧ x < region.base + w.pool.itemSize
    · omega
    · refine inside x fun unchanged => changed ?_
      exact (Memory.overwrite_outside _ _ _ _ (by omega)).trans unchanged
  · intro x lower upper
    rw [setFreeBlocks_memory, bytes, Memory.overwrite, if_pos ⟨lower, upper⟩]

/-! ## What a call keeps -/

/-- Memory has changed only inside the pool's chunks, and not in these cells. -/
structure Keeps (cells : List Nat) (w next : World) : Prop where
  itemSize : next.pool.itemSize = w.pool.itemSize
  regions : ∀ region ∈ w.regions, region ∈ next.regions
  changed : ∀ x, next.memory x ≠ w.memory x → next.owns x 1 ∧ ∀ a ∈ cells, x < a ∨ a + w.pool.itemSize ≤ x

theorem Keeps.refl (cells : List Nat) (w : World) : Keeps cells w w :=
  ⟨rfl, fun _ member => member, fun _ changed => absurd rfl changed⟩

theorem Keeps.trans {cells : List Nat} {w mid next : World} (first : Keeps cells w mid)
    (second : Keeps cells mid next) : Keeps cells w next where
  itemSize := second.itemSize.trans first.itemSize
  regions region member := second.regions region (first.regions region member)
  changed := by
    intro x changed
    rcases changed_early_or_late changed with early | late
    · obtain ⟨⟨region, among, bounds⟩, away⟩ := first.changed x early
      exact ⟨⟨region, second.regions region among, bounds⟩, away⟩
    · have result := second.changed x late
      rwa [first.itemSize] at result

theorem Grown.keeps {region : Region} {w next : World} {free : List Nat} (grown : Grown region w next)
    (good : Good w free) (fresh : w.fresh region) : Keeps w.handedOut w next where
  itemSize := grown.itemSize
  regions other member := by
    rw [grown.regions]
    exact List.mem_cons_of_mem _ member
  changed := by
    intro x changed
    have inside := grown.inside x changed
    refine ⟨⟨region, by simp [grown.regions], by omega, by omega⟩, fun a held => ?_⟩
    obtain ⟨-, -, other, among, lower, upper⟩ := good.cell_range (List.mem_append_right free held)
    have sides := fresh.2.2 other among
    omega

section Cell

variable {w next : World} {free : List Nat} {ptr : Nat} (good : Good w free) (member : ptr ∈ free ++ w.handedOut)
include good member

theorem cell_apart {a : Nat} (among : a ∈ free ++ w.handedOut) (differs : a ≠ ptr) : Apart w.pool.itemSize a ptr :=
  have : Std.Symm (Apart w.pool.itemSize) := ⟨fun _ _ => Apart.symm⟩
  good.apart.forall among member differs

theorem cell_keeps {cells : List Nat} (others : ∀ a ∈ cells, a ∈ free ++ w.handedOut ∧ a ≠ ptr)
    (itemSize : next.pool.itemSize = w.pool.itemSize) (regions : next.regions = w.regions)
    (inside : ∀ x, next.memory x ≠ w.memory x → ptr ≤ x ∧ x < ptr + w.pool.itemSize) : Keeps cells w next where
  itemSize := itemSize
  regions := by simp [regions]
  changed := by
    intro x changed
    obtain ⟨lower, upper⟩ := inside x changed
    obtain ⟨-, -, region, among, bottom, top⟩ := good.cell_range member
    refine ⟨⟨region, by rwa [regions], by omega, by omega⟩, fun a cell => ?_⟩
    have apart := cell_apart good member (others a cell).1 (others a cell).2
    rw [Apart] at apart
    omega

end Cell

theorem Good.erase_others {w : World} {free : List Nat} {ptr : Nat} (good : Good w free) :
    ∀ a ∈ w.handedOut.erase ptr, a ∈ free ++ w.handedOut ∧ a ≠ ptr := by
  intro a cell
  have parts := good.nodup.of_append_right.mem_erase_iff.mp cell
  exact ⟨List.mem_append_right _ parts.2, parts.1⟩

theorem takeFirst_keeps {w next : World} {free : List Nat} {ptr : Nat} (good : Good w free)
    (nonempty : w.pool.freeList ≠ 0) (call : takeFirst w = some (.ok (ptr, next))) :
    Keeps w.handedOut w next ∧ ∀ x, ptr ≤ x → x < ptr + w.pool.itemSize → next.memory x = 0 := by
  obtain ⟨rest, rfl, -⟩ := good.chain.cons_of_nonnull nonempty
  rw [takeFirst] at call
  generalize pred64 w.pool.freeBlocks = left at call
  obtain ⟨link, -, call⟩ := bind_eq_ok.mp call
  generalize taken : setFreeBlocks (setFreeList w link) left = popped at call
  have itemSize : popped.pool.itemSize = w.pool.itemSize := by rw [← taken]; rfl
  have regions : popped.regions = w.regions := by rw [← taken]; rfl
  have memory : popped.memory = w.memory := by rw [← taken]; rfl
  obtain ⟨cleared, clear, call⟩ := bind_eq_ok.mp call
  obtain ⟨rfl, rfl⟩ := Prod.mk.inj (pure_eq_ok.mp call)
  have zeroed := memset_eq clear
  have bytes : cleared.memory = w.memory.overwrite w.pool.freeList w.pool.itemSize fun _ => 0 := by
    rw [zeroed, ← itemSize, ← memory]
  have first : w.pool.freeList ∈ w.pool.freeList :: rest ++ w.handedOut := by simp
  constructor
  · refine cell_keeps good first ?_ (by rw [zeroed]; exact itemSize)
      (by rw [zeroed]; exact regions) ?_
    · intro a held
      refine ⟨List.mem_append_right _ held, ?_⟩
      rintro rfl
      have nodup := good.nodup
      rw [List.cons_append, List.nodup_cons] at nodup
      exact nodup.1 (List.mem_append_right _ held)
    · intro x changed
      by_contra outside
      rw [bytes] at changed
      exact changed (Memory.overwrite_outside _ _ _ _ (by omega))
  · intro x lower upper
    rw [bytes, Memory.overwrite, if_pos ⟨lower, upper⟩]

theorem allocate_keeps {w next : World} {free : List Nat} {answer : Option Nat} {ptr : Nat} (good : Good w free)
    (call : allocate w answer = some (.ok (ptr, next))) (nonnull : ptr ≠ 0) :
    Keeps w.handedOut w next ∧ ∀ x, ptr ≤ x → x < ptr + w.pool.itemSize → next.memory x = 0 := by
  rw [← allocateWithin_eq good, allocateWithin] at call
  split at call
  · rename_i nonempty
    exact takeFirst_keeps good nonempty call
  · rw [size64_of_lt good.product] at call
    cases answer with
    | none => exact absurd (Prod.mk.inj (pure_eq_ok.mp call)).1.symm nonnull
    | some base =>
        by_cases fresh : w.fresh ⟨base, w.pool.itemSize * w.pool.blockSize⟩
        · rw [malloc_fresh fresh, pure_bind] at call
          have two := good.block
          have item : w.pool.itemSize ≤ w.pool.itemSize * w.pool.blockSize := Nat.le_mul_of_pos_right _ (by omega)
          obtain ⟨rfl, grown, zeroed⟩ := @expandWithin_grown w next ⟨base, _⟩ ptr item call
          exact ⟨grown.keeps good fresh, zeroed⟩
        · rw [malloc_stale fresh, bind_none] at call
          cases call

theorem preAllocateRound_keeps {w next : World} {free : List Nat} {left : Nat} {answer : Option Nat}
    (good : Good w free) (positive : 0 < left) (call : preAllocateRound w left answer = some (.ok (some next))) :
    Keeps w.handedOut w next := by
  have batch : w.pool.itemSize * min left w.pool.blockSize < 2 ^ 64 :=
    (Nat.mul_le_mul_left _ (Nat.min_le_right _ _)).trans_lt good.product
  rw [← preAllocateRoundWithin_eq good positive, preAllocateRoundWithin] at call
  dsimp only at call
  rw [size64_of_lt batch] at call
  cases answer with
  | none => cases pure_eq_ok.mp call
  | some base =>
      by_cases fresh : w.fresh ⟨base, w.pool.itemSize * min left w.pool.blockSize⟩
      · rw [malloc_fresh fresh, pure_bind] at call
        obtain ⟨grown, added, call⟩ := bind_eq_ok.mp call
        obtain rfl := Option.some.inj (pure_eq_ok.mp call)
        exact (@addBatchWithin_grown w _ ⟨base, _⟩ _ added).keeps good fresh
      · rw [malloc_stale fresh, bind_none] at call
        cases call

theorem preAllocateLoop_keeps {fuel left : Nat} {w next : World} {free : List Nat} {answers : List (Option Nat)}
    (good : Good w free) (call : preAllocateLoop fuel w left answers = some (.ok next)) :
    Keeps w.handedOut w next := by
  induction fuel generalizing left w free answers with
  | zero => cases call
  | succ fuel ih =>
      rw [preAllocateLoop] at call
      split at call
      · obtain rfl := pure_eq_ok.mp call
        exact .refl _ w
      · rename_i more
        obtain ⟨round, first, call⟩ := bind_eq_ok.mp call
        cases round with
        | none =>
            obtain rfl := pure_eq_ok.mp call
            exact .refl _ w
        | some mid =>
            rcases preAllocateRound_good good (by omega) first with nothing | ⟨same, found, held, -, cells, kept⟩
            · cases nothing
            · cases found
              have rest := ih kept call
              rw [held] at rest
              exact (preAllocateRound_keeps good (by omega) first).trans rest

theorem deallocate_keeps {w next : World} {free : List Nat} {ptr : Nat} (good : Good w free) (held : ptr ∈ w.handedOut)
    (call : deallocate w ptr = some (.ok next)) : Keeps (w.handedOut.erase ptr) w next := by
  have member : ptr ∈ free ++ w.handedOut := List.mem_append_right _ held
  have nonnull : ptr ≠ 0 := Nat.ne_of_gt (good.cell_range member).1
  have item := good.item
  rw [deallocate, if_neg nonnull] at call
  generalize size64 (w.pool.freeBlocks + 1) = more at call
  obtain ⟨stored, store, call⟩ := bind_eq_ok.mp call
  obtain rfl := pure_eq_ok.mp call
  have linked := store_eq store
  refine cell_keeps good member good.erase_others (by rw [linked]; rfl) (by rw [linked]; rfl) ?_
  intro x changed
  by_contra outside
  rw [setFreeBlocks_memory, linked] at changed
  exact changed (Memory.store64_outside _ _ _ (by omega))

/-! ## The pool is an allocator -/

theorem length_bytesAt (memory : Memory) (a n : Nat) : (bytesAt memory a n).length = n := by simp [bytesAt]

theorem bytesAt_congr {memory memory' : Memory} {a n : Nat} (same : ∀ x, a ≤ x → x < a + n → memory' x = memory x) :
    bytesAt memory' a n = bytesAt memory a n := by
  rw [bytesAt, bytesAt]
  refine List.map_congr_left fun i member => same _ (Nat.le_add_right _ _) ?_
  have bound := List.mem_range.mp member
  omega

theorem bytesAt_zeros {memory : Memory} {a n : Nat} (zeroed : ∀ x, a ≤ x → x < a + n → memory x = 0) :
    bytesAt memory a n = List.replicate n 0 := by
  have same : bytesAt memory a n = bytesAt (fun _ => 0) a n := bytesAt_congr zeroed
  rw [same]
  simp [bytesAt]

theorem Keeps.bytes {cells : List Nat} {w next : World} {a : Nat} (keeps : Keeps cells w next) (member : a ∈ cells) :
    bytesAt next.memory a next.pool.itemSize = bytesAt w.memory a w.pool.itemSize := by
  rw [keeps.itemSize]
  refine bytesAt_congr fun x lower upper => ?_
  by_contra changed
  have away := (keeps.changed x changed).2 a member
  omega

theorem own_length {w : World} {block : Block UInt8} (member : block ∈ w.own) :
    block.bytes.length = w.pool.itemSize := by
  rw [member.2, length_bytesAt]

theorem blocks_apart {item : Nat} {block other : Block UInt8} (positive : 0 < item) (size : block.bytes.length = item)
    (size' : other.bytes.length = item) (apart : Apart item block.base other.base) : block.Apart other := by
  rw [Block.Apart, Block.limit, Block.limit, size, size']
  rw [Apart] at apart
  omega

theorem give_follows {w next : World} {free : List Nat} {ptr : Nat} (good : Good next free)
    (handed : next.handedOut = ptr :: w.handedOut) (keeps : Keeps w.handedOut w next)
    (zeroed : ∀ x, ptr ≤ x → x < ptr + w.pool.itemSize → next.memory x = 0) :
    Blocks.Step w.own (.give ⟨ptr, List.replicate w.pool.itemSize 0⟩) next.own := by
  have cells := bytesAt_zeros zeroed
  have grown : next.own = insert ⟨ptr, List.replicate w.pool.itemSize 0⟩ w.own := by
    ext block
    simp only [World.own, Set.mem_ofPred_eq, Set.mem_insert_iff, handed, List.mem_cons]
    constructor
    · rintro ⟨rfl | member, bytes⟩
      · rw [keeps.itemSize, cells] at bytes
        exact .inl (by rw [← bytes])
      · exact .inr ⟨member, bytes.trans (keeps.bytes member)⟩
    · rintro (rfl | ⟨member, bytes⟩)
      · exact ⟨.inl rfl, by rw [keeps.itemSize, cells]⟩
      · exact ⟨.inr member, bytes.trans (keeps.bytes member).symm⟩
  rw [grown]
  refine .give fun other member => ?_
  have among : other.base ∈ free ++ next.handedOut := by simp [handed, member.1]
  have first : ptr ∈ free ++ next.handedOut := by simp [handed]
  have nodup := good.nodup.of_append_right
  rw [handed, List.nodup_cons] at nodup
  have differs : other.base ≠ ptr := fun same => nodup.1 (same ▸ member.1)
  have apart := cell_apart good first among differs
  rw [keeps.itemSize] at apart
  exact blocks_apart (keeps.itemSize ▸ good.positive) (own_length member) (List.length_replicate ..) apart

theorem takeBack_follows {w next : World} {free : List Nat} {ptr : Nat} (good : Good w free) (held : ptr ∈ w.handedOut)
    (handed : next.handedOut = w.handedOut.erase ptr) (keeps : Keeps (w.handedOut.erase ptr) w next) :
    Blocks.Step w.own (.takeBack ptr) next.own := by
  have nodup := good.nodup.of_append_right
  have left : next.own = w.own.without ptr := by
    ext block
    simp only [World.own, Blocks.without, Set.mem_ofPred_eq, handed]
    constructor
    · rintro ⟨member, bytes⟩
      have parts := nodup.mem_erase_iff.mp member
      exact ⟨⟨parts.2, bytes.trans (keeps.bytes member)⟩, parts.1⟩
    · rintro ⟨⟨member, bytes⟩, differs⟩
      have stays := nodup.mem_erase_iff.mpr ⟨differs, member⟩
      exact ⟨stays, bytes.trans (keeps.bytes stays).symm⟩
  have member : (⟨ptr, bytesAt w.memory ptr w.pool.itemSize⟩ : Block UInt8) ∈ w.own := ⟨held, rfl⟩
  rw [left]
  exact .takeBack member

theorem write_follows {w : World} {free : List Nat} {ptr : Nat} (bytes : Memory) (good : Good w free)
    (held : ptr ∈ w.handedOut) :
    Keeps (w.handedOut.erase ptr) w { w with memory := w.memory.overwrite ptr w.pool.itemSize bytes } ∧
    Blocks.Step w.own (.write ⟨ptr, bytesAt bytes ptr w.pool.itemSize⟩)
      ({ w with memory := w.memory.overwrite ptr w.pool.itemSize bytes } : World).own := by
  have nodup := good.nodup.of_append_right
  have keeps : Keeps (w.handedOut.erase ptr) w { w with memory := w.memory.overwrite ptr w.pool.itemSize bytes } := by
    refine cell_keeps good (List.mem_append_right _ held) good.erase_others rfl rfl ?_
    intro x changed
    by_contra outside
    exact changed (Memory.overwrite_outside _ _ _ _ (by omega))
  refine ⟨keeps, ?_⟩
  have written : bytesAt (w.memory.overwrite ptr w.pool.itemSize bytes) ptr w.pool.itemSize =
      bytesAt bytes ptr w.pool.itemSize :=
    bytesAt_congr fun x lower upper => if_pos ⟨lower, upper⟩
  have changed : ({ w with memory := w.memory.overwrite ptr w.pool.itemSize bytes } : World).own =
      insert ⟨ptr, bytesAt bytes ptr w.pool.itemSize⟩ (w.own.without ptr) := by
    ext block
    simp only [World.own, Blocks.without, Set.mem_ofPred_eq, Set.mem_insert_iff]
    by_cases here : block.base = ptr
    · constructor
      · rintro ⟨-, contents⟩
        rw [here, written] at contents
        exact .inl (by rw [← contents, ← here])
      · rintro (rfl | ⟨-, differs⟩)
        · exact ⟨held, written.symm⟩
        · exact absurd here differs
    · constructor
      · rintro ⟨member, contents⟩
        have stays := nodup.mem_erase_iff.mpr ⟨here, member⟩
        exact .inr ⟨⟨member, contents.trans (keeps.bytes stays)⟩, here⟩
      · rintro (rfl | ⟨⟨member, contents⟩, -⟩)
        · exact absurd rfl here
        · have stays := nodup.mem_erase_iff.mpr ⟨here, member⟩
          exact ⟨member, contents.trans (keeps.bytes stays).symm⟩
  have member : (⟨ptr, bytesAt w.memory ptr w.pool.itemSize⟩ : Block UInt8) ∈ w.own := ⟨held, rfl⟩
  rw [changed]
  exact .write member rfl (by rw [length_bytesAt, length_bytesAt])

/-- Whatever is called, the memory changes inside the pool's chunks only, and its clients' blocks as those of an
allocator do. -/
structure Refines (w next : World) (action : Action) : Prop where
  itemSize : next.pool.itemSize = w.pool.itemSize
  inside : ∀ x, next.memory x ≠ w.memory x → next.owns x 1
  follows : Blocks.Follows w.own (happened w next action) next.own

theorem own_of_keeps {w next : World} (keeps : Keeps w.handedOut w next) (same : next.handedOut = w.handedOut) :
    next.own = w.own := by
  ext block
  simp only [World.own, Set.mem_ofPred_eq, same]
  exact and_congr_right fun member => by rw [keeps.bytes member]

theorem allocate_refines {w next : World} {free : List Nat} {answer : Option Nat} (good : Good w free)
    (stepped : step w (.allocate answer) = some (.ok next)) : Refines w next (.allocate answer) := by
  rw [step] at stepped
  obtain ⟨⟨ptr, mid⟩, call, stepped⟩ := bind_eq_ok.mp stepped
  have result := pure_eq_ok.mp stepped
  rcases allocate_good good call with same | ⟨ptr', mid', same, nonnull, -, held, cells, kept⟩
  · obtain ⟨rfl, rfl⟩ := Prod.mk.inj (Except.ok.inj same)
    rw [if_pos rfl] at result
    subst result
    refine ⟨rfl, fun x changed => absurd rfl changed, ?_⟩
    rw [happened, if_pos rfl]
    rfl
  · obtain ⟨rfl, rfl⟩ := Prod.mk.inj (Except.ok.inj same)
    rw [if_neg nonnull, held] at result
    obtain ⟨keeps, zeroed⟩ := allocate_keeps good call nonnull
    subst result
    have keeps' : Keeps w.handedOut w { mid with handedOut := ptr :: w.handedOut } := ⟨keeps.1, keeps.2, keeps.3⟩
    refine ⟨keeps.itemSize, fun x changed => (keeps.changed x changed).1, ?_⟩
    rw [happened, if_neg (List.cons_ne_self _ _)]
    exact give_follows kept rfl keeps' zeroed

theorem deallocate_refines {w next : World} {free : List Nat} {ptr : Nat} (good : Good w free)
    (stepped : step w (.deallocate ptr) = some (.ok next)) : Refines w next (.deallocate ptr) := by
  rw [step] at stepped
  split at stepped
  · rename_i permitted
    obtain ⟨mid, call, stepped⟩ := bind_eq_ok.mp stepped
    have result := pure_eq_ok.mp stepped
    by_cases null : ptr = 0
    · rw [deallocate, if_pos null] at call
      obtain rfl := pure_eq_ok.mp call
      have never : ptr ∉ w.handedOut := fun member =>
        absurd (good.cell_range (List.mem_append_right _ member)).1 (by omega)
      rw [List.erase_of_not_mem never] at result
      subst result
      refine ⟨rfl, fun x changed => absurd rfl changed, ?_⟩
      rw [happened, if_pos null]
      rfl
    · have held := permitted.resolve_left null
      obtain ⟨same, run, handed, -⟩ := deallocate_good good held
      obtain rfl : mid = same := pure_eq_ok.mp (run.symm.trans call) ▸ rfl
      have keeps := deallocate_keeps good held call
      rw [handed] at result
      subst result
      have keeps' : Keeps (w.handedOut.erase ptr) w { mid with handedOut := w.handedOut.erase ptr } :=
        ⟨keeps.1, keeps.2, keeps.3⟩
      refine ⟨keeps.itemSize, fun x changed => (keeps.changed x changed).1, ?_⟩
      rw [happened, if_neg null]
      exact takeBack_follows good held rfl keeps'
  · cases stepped

theorem step_refines {w next : World} {free : List Nat} {action : Action} (good : Good w free)
    (stepped : step w action = some (.ok next)) : Refines w next action := by
  cases action with
  | allocate answer => exact allocate_refines good stepped
  | deallocate ptr => exact deallocate_refines good stepped
  | preAllocate count answers =>
      have keeps := preAllocateLoop_keeps good stepped
      obtain ⟨same, ended, held, -⟩ := preAllocateLoop_good good (Nat.lt_succ_self count) stepped
      cases ended
      exact ⟨keeps.itemSize, fun x changed => (keeps.changed x changed).1, own_of_keeps keeps held⟩
  | write ptr bytes =>
      rw [step] at stepped
      split at stepped
      · rename_i held
        obtain rfl := pure_eq_ok.mp stepped
        obtain ⟨keeps, follows⟩ := write_follows bytes good held
        exact ⟨rfl, fun x changed => (keeps.changed x changed).1, follows⟩
      · cases stepped

end MemoryPool

end ServerFramework.Base
