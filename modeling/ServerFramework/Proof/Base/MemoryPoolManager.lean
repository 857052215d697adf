import ServerFramework.Base.MemoryPoolManager
import ServerFramework.Proof.Base.MemoryPool
import Mathlib.Data.Nat.Log
import Mathlib.Order.Bounds.Basic

namespace ServerFramework.Base
open Library MemoryPool

namespace MemoryPoolManager

/-! ## Rounding -/

/-- What `alloc_size` is for: a power of two with room for the item, and at least 64. -/
def roundUp (size : Nat) : Nat := 2 ^ Nat.clog 2 (max size 64)

theorem roundUp_isLeast (size : Nat) : IsLeast {n | (∃ k, n = 2 ^ k) ∧ max size 64 ≤ n} (roundUp size) := by
  refine ⟨⟨⟨_, rfl⟩, Nat.le_pow_clog (by decide) _⟩, ?_⟩
  rintro _ ⟨⟨k, rfl⟩, enough⟩
  exact Nat.pow_le_pow_right (by decide) (Nat.clog_le_of_le_pow enough)

theorem roundUp_le_iff {size k : Nat} (large : 6 ≤ k) : roundUp size ≤ 2 ^ k ↔ size ≤ 2 ^ k := by
  have bottom : 64 ≤ 2 ^ k := Nat.pow_le_pow_right (n := 2) (by decide) large
  rw [roundUp, Nat.pow_le_pow_iff_right (by decide), Nat.clog_le_iff_le_pow (by decide), Nat.max_le]
  exact and_iff_left bottom

theorem lt_iff_lt_roundUp {size k : Nat} (large : 6 ≤ k) : 2 ^ k < size ↔ 2 ^ k < roundUp size := by
  rw [← not_le, ← not_le, roundUp_le_iff large]

theorem loop_rounds {size k n : Nat} (least : roundUp size = 2 ^ (k + n)) (fits : k + n ≤ 63) (large : 6 ≤ k) :
    loop (roundBody size) (n + 1) (2 ^ k) = some (roundUp size) := by
  induction n generalizing k with
  | zero =>
      have stop : ¬ 2 ^ k < size := by
        rw [lt_iff_lt_roundUp large, least]
        exact Nat.lt_irrefl _
      rw [loop, roundBody, if_neg stop, least, Nat.add_zero]
  | succ n ih =>
      have goes : 2 ^ k < size := by
        rw [lt_iff_lt_roundUp large, least]
        exact Nat.pow_lt_pow_right (by decide) (by omega)
      have doubled : size64 (2 ^ k * 2) = 2 ^ (k + 1) := by
        rw [← Nat.pow_succ]
        exact size64_of_lt (Nat.pow_lt_pow_right (by decide) (by omega))
      have order : k + (n + 1) = k + 1 + n := by omega
      rw [order] at least fits
      rw [loop, roundBody, if_pos goes]
      dsimp only
      rw [doubled]
      exact ih least fits (Nat.le_succ_of_le large)

theorem exists_rounds {size : Nat} (fits : size ≤ 2 ^ 63) :
    ∃ fuel, loop (roundBody size) fuel 64 = some (roundUp size) := by
  have large : 6 ≤ Nat.clog 2 (max size 64) := by
    rw [← Nat.clog_pow 2 6 (by decide)]
    exact Nat.clog_mono_right 2 (Nat.le_max_right size 64)
  have small : Nat.clog 2 (max size 64) ≤ 63 := Nat.clog_le_of_le_pow (Nat.max_le.mpr ⟨fits, by decide⟩)
  obtain ⟨n, exponent⟩ := Nat.exists_eq_add_of_le large
  rw [exponent] at small
  exact ⟨n + 1, loop_rounds (by rw [roundUp, exponent]) small (Nat.le_refl 6)⟩

theorem loop_endless {size : Nat} (large : 2 ^ 63 < size) (fuel : Nat) {allocSize : Nat}
    (power : allocSize = 0 ∨ ∃ k ≤ 63, allocSize = 2 ^ k) : loop (roundBody size) fuel allocSize = none := by
  induction fuel generalizing allocSize with
  | zero => rfl
  | succ fuel ih =>
      have less : allocSize < size := by
        rcases power with rfl | ⟨k, small, rfl⟩
        · omega
        · exact (Nat.pow_le_pow_right (by decide) small).trans_lt large
      rw [loop, roundBody, if_pos less]
      apply ih
      rcases power with rfl | ⟨k, small, rfl⟩
      · exact .inl rfl
      · rw [← Nat.pow_succ]
        rcases Nat.lt_or_ge k 63 with inside | top
        · refine .inr ⟨k + 1, inside, size64_of_lt ?_⟩
          exact Nat.pow_lt_pow_right (by decide) (by omega)
        · obtain rfl : k = 63 := by omega
          exact .inl rfl

theorem rounded_eq {fuel size allocSize : Nat} (rounded : loop (roundBody size) fuel 64 = some allocSize) :
    size ≤ 2 ^ 63 ∧ allocSize = roundUp size := by
  have fits : size ≤ 2 ^ 63 := by
    by_contra large
    have endless : loop (roundBody size) fuel 64 = none :=
      loop_endless (not_le.mp large) fuel (.inr ⟨6, by decide, rfl⟩)
    rw [endless] at rounded
    cases rounded
  obtain ⟨enough, same⟩ := exists_rounds fits
  exact ⟨fits, loop_agree rounded same⟩

/-! ## A new pool -/

theorem construct_failed {itemSize count : Nat} (large : 8 ≤ itemSize) (positive : 0 < count) (memory : Memory) :
    construct itemSize count count memory [none] =
      some (.ok { pool := { itemSize, blockSize := count }, memory }) := by
  rw [construct, if_neg (by omega), preAllocate, preAllocateLoop, if_neg (by omega)]
  rfl

theorem construct_given {itemSize count base : Nat} {memory : Memory} (large : 8 ≤ itemSize) (two : 2 ≤ count)
    (product : itemSize * count < 2 ^ 64) (positive : 0 < base) (inside : base + itemSize * count ≤ 2 ^ 64) :
    ∃ w, construct itemSize count count memory [some base] = some (.ok w) ∧ w.pool.itemSize = itemSize := by
  let empty : World := { pool := { itemSize, blockSize := count }, memory }
  have good : Good empty [] := empty_good large two product memory
  have fresh : empty.fresh ⟨base, itemSize * count⟩ := ⟨positive, inside, by simp [empty]⟩
  have few : count < 2 ^ 64 := Nat.lt_of_le_of_lt (Nat.le_mul_of_pos_left count (by omega)) product
  obtain ⟨next, linked, -, -, item, -⟩ := addBatch_good good fresh (by omega) few
  have round : preAllocateRound empty count (some base) = pure (some next) := by
    rw [preAllocateRound, Nat.min_self, size64_of_lt product, malloc_fresh fresh, pure_bind]
    dsimp only
    rw [linked, pure_bind]
  refine ⟨next, ?_, item⟩
  rw [construct, if_neg (by omega), preAllocate, preAllocateLoop, if_neg (by omega)]
  change (preAllocateRound empty count (some base) >>= _) = _
  rw [round, pure_bind]
  obtain ⟨n, rfl⟩ := Nat.exists_eq_add_of_le' (Nat.one_le_of_lt two)
  rw [Nat.min_self, Nat.sub_self]
  rfl

theorem construct_wrapped {k base : Nat} (large : 58 ≤ k) (positive : 0 < base) (inside : base ≤ 2 ^ 64)
    (memory : Memory) : construct (2 ^ k) 64 64 memory [some base] = some (.error .outOfBounds) := by
  let empty : World := { pool := { itemSize := 2 ^ k, blockSize := 64 }, memory }
  have item : 2 ^ 3 ≤ 2 ^ k := Nat.pow_le_pow_right (by decide) (by omega)
  have wraps : size64 (empty.pool.itemSize * 64) = 0 := by
    obtain ⟨n, rfl⟩ := Nat.exists_eq_add_of_le large
    have whole : 2 ^ (58 + n) * 64 = 2 ^ 64 * 2 ^ n := by
      rw [Nat.pow_add]
      omega
    rw [size64]
    dsimp only [empty]
    rw [whole, Nat.mul_mod_right]
  have fresh : empty.fresh ⟨base, 0⟩ := ⟨positive, inside, by simp [empty]⟩
  have outside : ¬ (addChunk { empty with regions := ⟨base, 0⟩ :: empty.regions } base 64).owns
      (blockAt (addChunk { empty with regions := ⟨base, 0⟩ :: empty.regions } base 64) base 0) 8 := by
    rintro ⟨region, among, lower, upper⟩
    rw [List.mem_singleton.mp among] at lower upper
    dsimp only at lower upper
    omega
  have batch : min 64 empty.pool.blockSize = 64 := Nat.min_self 64
  have round : preAllocateRound empty 64 (some base) = throw .outOfBounds := by
    rw [preAllocateRound]
    dsimp only
    rw [batch, wraps, malloc_fresh fresh, pure_bind]
    dsimp only
    rw [addBatch, show pred64 64 = 62 + 1 from rfl, linkBlocks, store]
    rw [if_neg outside]
    rfl
  rw [construct, if_neg (by omega), preAllocate, preAllocateLoop, if_neg (by omega)]
  change (preAllocateRound empty 64 (some base) >>= _) = _
  rw [round]
  rfl

theorem construct_stale {itemSize count base : Nat} (large : 8 ≤ itemSize) (positive : 0 < count)
    (stale : ¬ (0 < base ∧ base + size64 (itemSize * count) ≤ 2 ^ 64)) (memory : Memory) :
    construct itemSize count count memory [some base] = none := by
  let empty : World := { pool := { itemSize, blockSize := count }, memory }
  have taken : ¬ empty.fresh ⟨base, size64 (itemSize * count)⟩ := fun fresh => stale ⟨fresh.1, fresh.2.1⟩
  rw [construct, if_neg (by omega), preAllocate, preAllocateLoop, if_neg (by omega)]
  change (preAllocateRound empty count (some base) >>= _) = _
  rw [preAllocateRound, Nat.min_self]
  change ((malloc empty (size64 (itemSize * count)) (some base) >>= _) >>= _) = _
  rw [malloc_stale taken]
  rfl

theorem construct_itemSize {itemSize count : Nat} {memory : Memory} {answer : Option Nat} {w : World}
    (large : 8 ≤ itemSize) (two : 2 ≤ count) (product : itemSize * count < 2 ^ 64)
    (built : construct itemSize count count memory [answer] = some (.ok w)) : w.pool.itemSize = itemSize := by
  cases answer with
  | none =>
      rw [construct_failed large (by omega)] at built
      cases built
      rfl
  | some base =>
      by_cases usable : 0 < base ∧ base + itemSize * count ≤ 2 ^ 64
      · obtain ⟨made, same, item⟩ := @construct_given _ _ _ memory large two product usable.1 usable.2
        rw [same] at built
        cases built
        exact item
      · rw [construct_stale large (by omega) (by rwa [size64_of_lt product])] at built
        cases built

theorem construct_cases {k : Nat} {memory : Memory} {answer : Option Nat} {w : World} (large : 6 ≤ k)
    (built : construct (2 ^ k) 64 64 memory [answer] = some (.ok w)) :
    w.pool.itemSize = 2 ^ k ∧ (k ≤ 57 ∨ answer = none) := by
  have item : 2 ^ 6 ≤ 2 ^ k := Nat.pow_le_pow_right (by decide) large
  rcases Nat.lt_or_ge 57 k with beyond | fits
  · cases answer with
    | none =>
        rw [construct_failed (by omega) (by decide)] at built
        cases built
        exact ⟨rfl, .inr rfl⟩
    | some base =>
        by_cases usable : 0 < base ∧ base + size64 (2 ^ k * 64) ≤ 2 ^ 64
        · rw [construct_wrapped beyond usable.1 ((Nat.le_add_right _ _).trans usable.2)] at built
          cases built
        · rw [construct_stale (by omega) (by decide) usable] at built
          cases built
  · have product : 2 ^ k * 64 < 2 ^ 64 := by
      have bound : 2 ^ k ≤ 2 ^ 57 := Nat.pow_le_pow_right (by decide) fits
      omega
    exact ⟨construct_itemSize (by omega) (by decide) product built, .inl fits⟩

theorem construct_returns {k : Nat} {memory : Memory} {answer : Option Nat} (large : 6 ≤ k)
    (usable : ∀ base ∈ answer, 0 < base ∧ base + size64 (2 ^ k * 64) ≤ 2 ^ 64) (fits : k ≤ 57 ∨ answer = none) :
    ∃ w, construct (2 ^ k) 64 64 memory [answer] = some (.ok w) := by
  have item : 2 ^ 6 ≤ 2 ^ k := Nat.pow_le_pow_right (by decide) large
  cases answer with
  | none => exact ⟨_, construct_failed (by omega) (by decide) memory⟩
  | some base =>
      have small : 2 ^ k ≤ 2 ^ 57 := Nat.pow_le_pow_right (by decide) (fits.resolve_right (by simp))
      obtain ⟨positive, inside⟩ := usable base rfl
      have product : 2 ^ k * 64 < 2 ^ 64 := by omega
      rw [size64_of_lt product] at inside
      have large : 8 ≤ 2 ^ k := by omega
      obtain ⟨w, built, -⟩ := @construct_given _ _ _ memory large (by decide) product positive inside
      exact ⟨w, built⟩

/-! ## One call -/

def index (mgr : MemoryPoolManager) (size : Nat) : Option Nat :=
  mgr.pools.findIdx? fun entry => entry.size = roundUp size

theorem exists_roundUp (size : Nat) : ∃ k, 6 ≤ k ∧ roundUp size = 2 ^ k := by
  refine ⟨_, ?_, rfl⟩
  rw [← Nat.clog_pow 2 6 (by decide)]
  exact Nat.clog_mono_right 2 (Nat.le_max_right size 64)

theorem getPool_cases {mgr next : MemoryPoolManager} {fuel size i : Nat} {memory : Memory} {answer : Option Nat}
    (returned : mgr.getPool fuel size memory answer = some (.ok (i, next))) :
    size ≤ 2 ^ 63 ∧ ((mgr.index size = some i ∧ next = mgr) ∨ (mgr.index size = none ∧ i = mgr.pools.length ∧
      (size ≤ 2 ^ 57 ∨ answer = none) ∧
      ∃ pool, next = ⟨mgr.pools ++ [⟨roundUp size, pool⟩]⟩ ∧ pool.pool.itemSize = roundUp size)) := by
  unfold getPool at returned
  split at returned
  · cases returned
  · rename_i allocSize rounded
    obtain ⟨fits, rfl⟩ := rounded_eq rounded
    refine ⟨fits, ?_⟩
    split at returned
    · rename_i found
      cases returned
      exact .inl ⟨found, rfl⟩
    · rename_i missing
      obtain ⟨k, large, power⟩ := exists_roundUp size
      cases built : construct (roundUp size) 64 64 memory [answer] with
      | none =>
          rw [built] at returned
          cases returned
      | some result =>
          rw [built] at returned
          cases result with
          | error trap => cases returned
          | ok pool =>
              cases returned
              rw [power] at built
              obtain ⟨item, small⟩ := construct_cases large built
              rw [← power] at item
              refine .inr ⟨missing, rfl, small.imp_left fun below => ?_, pool, rfl, item⟩
              have bound : roundUp size ≤ 2 ^ 57 := by
                rw [power]
                exact Nat.pow_le_pow_right (by decide) below
              exact (roundUp_le_iff (by decide)).mp bound

theorem getPool_found {mgr : MemoryPoolManager} {size i : Nat} (fits : size ≤ 2 ^ 63)
    (found : mgr.index size = some i) (memory : Memory) (answer : Option Nat) :
    ∃ fuel, mgr.getPool fuel size memory answer = some (.ok (i, mgr)) := by
  obtain ⟨fuel, rounded⟩ := exists_rounds fits
  unfold index at found
  refine ⟨fuel, ?_⟩
  simp only [getPool, rounded, found]
  rfl

theorem getPool_returns {mgr : MemoryPoolManager} {size : Nat} {memory : Memory} {answer : Option Nat}
    (fits : size ≤ 2 ^ 63) (usable : ∀ base ∈ answer, 0 < base ∧ base + size64 (roundUp size * 64) ≤ 2 ^ 64)
    (served : size ≤ 2 ^ 57 ∨ answer = none ∨ (mgr.index size).isSome) :
    ∃ fuel i next, mgr.getPool fuel size memory answer = some (.ok (i, next)) := by
  cases found : mgr.index size with
  | some i =>
      obtain ⟨fuel, returned⟩ := getPool_found fits found memory answer
      exact ⟨fuel, i, mgr, returned⟩
  | none =>
      obtain ⟨fuel, rounded⟩ := exists_rounds fits
      obtain ⟨k, large, power⟩ := exists_roundUp size
      have small : k ≤ 57 ∨ answer = none := by
        rcases served with below | failed | listed
        · have bound := (roundUp_le_iff (k := 57) (by decide)).mpr below
          rw [power] at bound
          exact .inl ((Nat.pow_le_pow_iff_right (by decide)).mp bound)
        · exact .inr failed
        · rw [found] at listed
          cases listed
      rw [power] at usable
      obtain ⟨pool, built⟩ := @construct_returns _ memory _ large usable small
      rw [← power] at built
      refine ⟨fuel, mgr.pools.length, ⟨mgr.pools ++ [⟨roundUp size, pool⟩]⟩, ?_⟩
      unfold index at found
      simp only [getPool, rounded, found, built]
      rfl

/-! ## All calls -/

structure Sized (mgr : MemoryPoolManager) : Prop where
  entries : ∀ entry ∈ mgr.pools, entry.pool.pool.itemSize = entry.size

theorem Sized.snoc {mgr : MemoryPoolManager} (sized : Sized mgr) {entry : PoolEntry}
    (item : entry.pool.pool.itemSize = entry.size) : Sized ⟨mgr.pools ++ [entry]⟩ where
  entries := by
    rintro other member
    rcases List.mem_append.mp member with old | new
    · exact sized.entries other old
    · rw [List.mem_singleton.mp new]
      exact item

def Grows (mgr next : MemoryPoolManager) : Prop := ∃ more, next.pools = mgr.pools ++ more

theorem Grows.refl (mgr : MemoryPoolManager) : Grows mgr mgr := ⟨[], (List.append_nil _).symm⟩

theorem Grows.trans {mgr next last : MemoryPoolManager} (first : Grows mgr next) (second : Grows next last) :
    Grows mgr last := by
  obtain ⟨more, grown⟩ := first
  obtain ⟨rest, further⟩ := second
  exact ⟨more ++ rest, by rw [further, grown, List.append_assoc]⟩

theorem Grows.index {mgr next : MemoryPoolManager} (grows : Grows mgr next) {size i : Nat}
    (found : mgr.index size = some i) : next.index size = some i := by
  obtain ⟨more, grown⟩ := grows
  rw [MemoryPoolManager.index] at found ⊢
  rw [grown, List.findIdx?_append, found]
  rfl

theorem addPools_spec {memory : Memory} {sizes : List Nat} {answers : List (Option Nat)} {mgr next : MemoryPoolManager}
    (fits : ∀ sz ∈ sizes, 8 ≤ sz ∧ sz * 32 < 2 ^ 64) (added : addPools memory sizes answers mgr = some (.ok next))
    (sized : Sized mgr) : Sized next ∧ Grows mgr next := by
  induction sizes generalizing answers mgr with
  | nil =>
      cases added
      exact ⟨sized, .refl next⟩
  | cons sz sizes ih =>
      rw [addPools] at added
      cases built : construct sz 32 32 memory [answers.head?.join] with
      | none =>
          rw [built] at added
          cases added
      | some result =>
          rw [built] at added
          cases result with
          | error trap => cases added
          | ok pool =>
              obtain ⟨large, product⟩ := fits sz List.mem_cons_self
              have item := construct_itemSize large (by decide) product built
              have first : Grows mgr ⟨mgr.pools ++ [⟨sz, pool⟩]⟩ := ⟨_, rfl⟩
              obtain ⟨last, grows⟩ := ih (fun other member => fits other (List.mem_cons_of_mem _ member)) added
                (sized.snoc item)
              exact ⟨last, first.trans grows⟩

theorem getPool_kept {mgr next : MemoryPoolManager} {fuel size i : Nat} {memory : Memory} {answer : Option Nat}
    (returned : mgr.getPool fuel size memory answer = some (.ok (i, next))) (sized : Sized mgr) : Sized next := by
  rcases (getPool_cases returned).2 with ⟨-, rfl⟩ | ⟨-, -, -, pool, rfl, item⟩
  · exact sized
  · exact sized.snoc item

theorem step_spec {mgr next : MemoryPoolManager} {action : Action} (stepped : step mgr action = some (.ok next))
    (sized : Sized mgr) : Sized next ∧ Grows mgr next := by
  cases action with
  | getPool fuel size memory answer =>
      rw [step] at stepped
      cases call : mgr.getPool fuel size memory answer with
      | none =>
          rw [call] at stepped
          cases stepped
      | some result =>
          rw [call] at stepped
          cases result with
          | error trap => cases stepped
          | ok returned =>
              cases stepped
              refine ⟨getPool_kept call sized, ?_⟩
              rcases (getPool_cases call).2 with ⟨-, same⟩ | ⟨-, -, -, pool, made, -⟩
              · rw [same]
                exact .refl mgr
              · rw [made]
                exact ⟨_, rfl⟩
  | preAlloc memory answers => exact addPools_spec (by decide) stepped sized

theorem exec_spec {mgr next : MemoryPoolManager} {actions : List Action}
    (ran : exec (orFault step) (.ok mgr) actions = some (.ok next)) (sized : Sized mgr) :
    Sized next ∧ Grows mgr next := by
  refine exec_orFault_ok (P := fun later => Sized later ∧ Grows mgr later) ?_ ran ⟨sized, .refl mgr⟩
  rintro before action after stepped ⟨still, grown⟩
  obtain ⟨kept, more⟩ := step_spec stepped still
  exact ⟨kept, grown.trans more⟩

theorem getPool_fits {mgr next : MemoryPoolManager} {fuel size i : Nat} {memory : Memory} {answer : Option Nat}
    (returned : mgr.getPool fuel size memory answer = some (.ok (i, next))) (sized : Sized mgr) :
    next.index size = some i ∧ ∃ entry, next.pools[i]? = some entry ∧ entry.pool.pool.itemSize = roundUp size := by
  rcases (getPool_cases returned).2 with ⟨found, rfl⟩ | ⟨missing, rfl, -, pool, rfl, item⟩
  · refine ⟨found, ?_⟩
    obtain ⟨inside, same, -⟩ := List.findIdx?_eq_some_iff_getElem.mp found
    refine ⟨_, List.getElem?_eq_getElem inside, ?_⟩
    rw [sized.entries _ (List.getElem_mem inside)]
    exact of_decide_eq_true same
  · unfold index at missing ⊢
    refine ⟨?_, ⟨roundUp size, pool⟩, by simp, item⟩
    rw [List.findIdx?_append, missing]
    simp

/-- The call returns a pool that fits, and so does every later call with the same rounded size: the same pool. -/
def Serves (mgr : MemoryPoolManager) (size : Nat) (memory : Memory) (answer : Option Nat) : Prop :=
  ∃ fuel i next, mgr.getPool fuel size memory answer = some (.ok (i, next)) ∧
    (∃ entry, next.pools[i]? = some entry ∧
      IsLeast {n | (∃ k, n = 2 ^ k) ∧ max size 64 ≤ n} entry.pool.pool.itemSize) ∧
    ∀ actions later, exec (orFault step) (.ok next) actions = some (.ok later) →
      ∀ size', roundUp size' = roundUp size → ∀ memory answer,
        ∃ fuel, later.getPool fuel size' memory answer = some (.ok (i, later))

theorem get_pool_serves_iff (actions : List Action) (mgr : MemoryPoolManager)
    (ran : exec (orFault step) (.ok {}) actions = some (.ok mgr)) (size : Nat) (memory : Memory) (answer : Option Nat)
    (usable : ∀ base ∈ answer, 0 < base ∧ base + size64 (roundUp size * 64) ≤ 2 ^ 64) :
    Serves mgr size memory answer ↔
      size ≤ 2 ^ 63 ∧ (size ≤ 2 ^ 57 ∨ answer = none ∨ ∃ entry ∈ mgr.pools, entry.size = roundUp size) := by
  have sized : Sized mgr := (exec_spec ran ⟨by simp⟩).1
  have listed : (∃ entry ∈ mgr.pools, entry.size = roundUp size) ↔ (mgr.index size).isSome := by
    simp [index, List.findIdx?_isSome]
  rw [listed]
  constructor
  · rintro ⟨fuel, i, next, returned, -, -⟩
    obtain ⟨fits, found | made⟩ := getPool_cases returned
    · exact ⟨fits, .inr (.inr (by rw [found.1]; rfl))⟩
    · exact ⟨fits, made.2.2.1.imp_right .inl⟩
  · rintro ⟨fits, served⟩
    obtain ⟨fuel, i, next, returned⟩ := @getPool_returns mgr size memory answer fits usable served
    obtain ⟨place, entry, here, item⟩ := getPool_fits returned sized
    refine ⟨fuel, i, next, returned, ⟨entry, here, item ▸ roundUp_isLeast size⟩, ?_⟩
    intro actions later onward size' same memory' answer'
    have kept := (exec_spec onward (getPool_kept returned sized)).2.index place
    have fits' : size' ≤ 2 ^ 63 := by
      rw [← roundUp_le_iff (by decide), same, roundUp_le_iff (by decide)]
      exact fits
    have found : later.index size' = some i := by
      rw [index] at kept ⊢
      rw [same]
      exact kept
    exact getPool_found fits' found memory' answer'

-- A pool of 128-byte items, then the eight of `pre_alloc`: its third chunk is refused, the others lie 2^20 apart.
def warmed : List Action :=
  [.getPool 8 100 (fun _ => 0) (some 4096),
    .preAlloc (fun _ => 0) [some (2 ^ 20), some (2 ^ 21), none, some (3 * 2 ^ 20), some (2 ^ 22), some (5 * 2 ^ 20),
      some (6 * 2 ^ 20), some (7 * 2 ^ 20)]]

theorem get_pool_serves_first :
    ∃ mgr, exec (orFault step) (.ok {}) warmed = some (.ok mgr) ∧
      mgr.pools.map PoolEntry.size = [128, 64, 128, 256, 512, 1024, 2048, 4096, 8192] ∧
      Serves mgr 120 (fun _ => 0) none ∧ Serves mgr 10000 (fun _ => 0) (some (2 ^ 23)) := by
  have evaluated : (exec (orFault step) (.ok {}) warmed).map (fun result => result.toOption.map fun mgr =>
      mgr.pools.map PoolEntry.size) = some (some [128, 64, 128, 256, 512, 1024, 2048, 4096, 8192]) := by decide +kernel
  obtain ⟨result, ran, ended⟩ := Option.map_eq_some_iff.mp evaluated
  obtain ⟨mgr, made, sizes⟩ := Option.map_eq_some_iff.mp ended
  obtain rfl : result = .ok mgr := by
    cases result with
    | error trap => cases made
    | ok other => rw [Option.some.inj made]
  have usable : ∀ base ∈ some (2 ^ 23), 0 < base ∧ base + size64 (roundUp 10000 * 64) ≤ 2 ^ 64 := by
    rintro _ ⟨⟩
    decide
  refine ⟨mgr, ran, sizes, ?_, ?_⟩
  · exact (get_pool_serves_iff warmed mgr ran 120 _ none (by simp)).mpr ⟨by decide, .inl (by decide)⟩
  · exact (get_pool_serves_iff warmed mgr ran 10000 _ _ usable).mpr ⟨by decide, .inl (by decide)⟩

theorem get_pool_never_returns :
    (∀ fuel, getPool fuel {} (2 ^ 63 + 1) (fun _ => 0) none = some (.error .endless)) ∧
      ¬ Serves {} (2 ^ 63 + 1) (fun _ => 0) none := by
  have endless : ∀ fuel, getPool fuel {} (2 ^ 63 + 1) (fun _ => 0) none = some (.error .endless) := by
    intro fuel
    have rounds : loop (roundBody (2 ^ 63 + 1)) fuel 64 = none :=
      loop_endless (by decide) fuel (.inr ⟨6, by decide, rfl⟩)
    rw [getPool, rounds]
    rfl
  refine ⟨endless, ?_⟩
  rintro ⟨fuel, i, next, returned, -⟩
  rw [endless fuel] at returned
  cases returned

end MemoryPoolManager

end ServerFramework.Base
