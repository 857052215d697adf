import ServerFramework.Proof.Base.MemoryPoolManager
import ServerFramework.Proof.Base.PoolBlocks
import Mathlib.Data.Set.Card

namespace ServerFramework.Base
open Library

namespace MemoryPool

theorem construct_kept {itemSize preAlloc blockSize : Nat} {memory : Memory} {answers : List (Option Nat)} {w : World}
    (two : 2 ≤ blockSize) (fits : max itemSize 8 * blockSize < 2 ^ 64)
    (built : construct itemSize preAlloc blockSize memory answers = some (.ok w)) :
    (∃ free, Good w free) ∧ w.handedOut = [] ∧ ∀ x, w.memory x ≠ memory x → w.owns x 1 := by
  have rounded : (if itemSize < 8 then 8 else itemSize) = max itemSize 8 := by
    split <;> omega
  rw [construct, rounded] at built
  have empty := empty_good (Nat.le_max_right itemSize 8) two fits memory
  obtain ⟨same, ended, held, kept⟩ := preAllocateLoop_good empty (Nat.lt_succ_self preAlloc) built
  cases ended
  have keeps := preAllocateLoop_keeps empty built
  exact ⟨kept, held, fun x changed => (keeps.changed x changed).1⟩

section Elsewhere

variable {w : World} {free : List Nat} {memory : Memory} (good : Good w free)
  (same : ∀ x, w.owns x 1 → memory x = w.memory x)
include good same

theorem cell_bytes {a x : Nat} (member : a ∈ free ++ w.handedOut) (lower : a ≤ x) (upper : x < a + w.pool.itemSize) :
    memory x = w.memory x := by
  obtain ⟨-, -, region, among, bottom, top⟩ := good.cell_range member
  exact same x ⟨region, among, by omega, by omega⟩

theorem Good.elsewhere : Good { w with memory } free :=
  { good with
    chain := good.chain.congr fun a member => Memory.load64_congr fun x lower upper => by
      have item := good.item
      exact cell_bytes good same (List.mem_append_left _ member) lower (by omega) }

theorem own_elsewhere : ({ w with memory } : World).own = w.own := by
  ext block
  simp only [World.own, Set.mem_ofPred_eq]
  refine and_congr_right fun member => ?_
  rw [bytesAt_congr fun x lower upper => cell_bytes good same (List.mem_append_right _ member) lower upper]

end Elsewhere

end MemoryPool

namespace SharedPools
open MemoryPool

/-! ## Pools beside one another -/

theorem Clear.symm {w other : World} (clear : Clear w other) : Clear other w :=
  fun region among taken member => (clear taken member region among).symm

theorem Clear.not_owns {w other : World} {x : Nat} (clear : Clear w other) (owned : other.owns x 1) :
    ¬ w.owns x 1 := by
  rintro ⟨region, among, lower, upper⟩
  obtain ⟨taken, member, bottom, top⟩ := owned
  have sides := clear region among taken member
  omega

theorem Clear.apart {w other : World} {free free' : List Nat} (clear : Clear w other) (good : Good w free)
    (good' : Good other free') {block block' : Block UInt8} (member : block ∈ w.own) (member' : block' ∈ other.own) :
    block.Apart block' := by
  obtain ⟨-, -, region, among, lower, upper⟩ := good.cell_range (List.mem_append_right _ member.1)
  obtain ⟨-, -, taken, among', lower', upper'⟩ := good'.cell_range (List.mem_append_right _ member'.1)
  have sides := clear region among taken among'
  have positive := good.positive
  have positive' := good'.positive
  rw [Block.Apart, Block.limit, Block.limit, own_length member, own_length member']
  omega

structure Sound (s : SharedPools) : Prop where
  good : ∀ entry ∈ s.mgr.pools, ∃ free, Good (s.world entry) free
  separate : Separate s.mgr.pools
  reaches : Blocks.Reaches s.log s.view

def others (s : SharedPools) (entries : List PoolEntry) : Blocks UInt8 :=
  {block | ∃ entry ∈ entries, block ∈ (s.world entry).own}

theorem view_split {s : SharedPools} {l r : List PoolEntry} {entry : PoolEntry}
    (pools : s.mgr.pools = l ++ entry :: r) : s.view = s.others (l ++ r) ∪ (s.world entry).own := by
  ext block
  simp only [view, others, Set.mem_ofPred_eq, Set.mem_union, pools, List.mem_append, List.mem_cons, or_and_right,
    exists_or, exists_eq_left]
  rw [or_assoc]
  exact or_congr_right or_comm

theorem clear_of_separate {l r : List PoolEntry} {entry other : PoolEntry} (separate : Separate (l ++ entry :: r))
    (member : other ∈ l ++ r) : Clear other.pool entry.pool := by
  obtain ⟨-, later, before⟩ := List.pairwise_append.mp separate
  rcases List.mem_append.mp member with early | late
  · exact before other early entry List.mem_cons_self
  · exact Clear.symm ((List.pairwise_cons.mp later).1 other late)

/-- One pool has done something, or is new; `held` is what its clients had before. -/
theorem placed_sound {s : SharedPools} {l r : List PoolEntry} {entry : PoolEntry} {held : Blocks UInt8}
    {event : Option (Blocks.Event UInt8)} (reaches : Blocks.Reaches s.log s.view)
    (good : ∀ other ∈ l ++ r, ∃ free, Good (s.world other) free) (parts : s.view = s.others (l ++ r) ∪ held)
    (before : ∀ block ∈ s.others (l ++ r), ∀ old ∈ held, block.Apart old) (kept : ∃ free, Good entry.pool free)
    (inside : ∀ x, entry.pool.memory x ≠ s.memory x → entry.pool.owns x 1)
    (follows : Blocks.Follows held event entry.pool.own) (separate : Separate (l ++ entry :: r)) :
    Sound { memory := entry.pool.memory, mgr := ⟨l ++ entry :: r⟩, log := event.toList ++ s.log } := by
  have spared : ∀ other ∈ l ++ r, ∀ x, (s.world other).owns x 1 → entry.pool.memory x = s.memory x := by
    intro other member x owned
    by_contra changed
    exact (clear_of_separate separate member).not_owns (inside x changed) owned
  let next : SharedPools :=
    { memory := entry.pool.memory, mgr := ⟨l ++ entry :: r⟩, log := event.toList ++ s.log }
  have stays : next.others (l ++ r) = s.others (l ++ r) := by
    ext block
    refine exists_congr fun other => and_congr_right fun member => ?_
    obtain ⟨free, sound⟩ := good other member
    exact iff_of_eq (congrArg (block ∈ ·) (own_elsewhere sound (spared other member)))
  have view : next.view = next.others (l ++ r) ∪ entry.pool.own := view_split rfl
  refine ⟨?_, separate, ?_⟩
  · intro other member
    rcases List.mem_append.mp member with early | late
    · obtain ⟨free, sound⟩ := good other (List.mem_append_left _ early)
      exact ⟨free, sound.elsewhere (spared other (List.mem_append_left _ early))⟩
    · rcases List.mem_cons.mp late with rfl | late
      · exact kept
      · obtain ⟨free, sound⟩ := good other (List.mem_append_right _ late)
        exact ⟨free, sound.elsewhere (spared other (List.mem_append_right _ late))⟩
  · change Blocks.Reaches _ next.view
    rw [view, stays]
    refine reaches.follows ?_
    rw [parts]
    refine follows.frame before ?_
    rintro block ⟨other, member, mine⟩ block' member'
    obtain ⟨free, sound⟩ := good other member
    obtain ⟨free', sound'⟩ := kept
    have clear : Clear (s.world other) entry.pool := clear_of_separate separate member
    exact clear.apart sound sound' mine member'

/-! ## Every call -/

theorem bind_eq_some {α β : Type} {call : Attempt α} {rest : α → Attempt β} {r : Except Trap β}
    (returned : (call >>= rest) = some r) :
    ∃ result, call = some result ∧ ∀ a, result = .ok a → rest a = some r := by
  cases first : call with
  | none =>
      rw [first] at returned
      cases returned
  | some result =>
      refine ⟨result, rfl, ?_⟩
      rintro a rfl
      rw [first] at returned
      exact returned

theorem accept_eq {s : SharedPools} {r : Except Trap SharedPools} (accepted : s.accept = some r) :
    r = .ok s ∧ Separate s.mgr.pools := by
  rw [accept] at accepted
  split at accepted
  · rename_i separate
    exact ⟨(Option.some.inj accepted).symm, separate⟩
  · cases accepted

theorem adopt_sound {s : SharedPools} {entry : PoolEntry} {r : Except Trap SharedPools} (sound : Sound s)
    (kept : ∃ free, Good entry.pool free) (unused : entry.pool.handedOut = [])
    (inside : ∀ x, entry.pool.memory x ≠ s.memory x → entry.pool.owns x 1) (adopted : s.adopt entry = some r) :
    ∃ next, r = .ok next ∧ Sound next := by
  obtain ⟨rfl, separate⟩ := accept_eq adopted
  have nothing : entry.pool.own = ∅ := by
    ext block
    simp [World.own, unused]
  have follows : Blocks.Follows ∅ none entry.pool.own := nothing
  refine ⟨_, rfl, placed_sound sound.reaches ?_ ?_ (by simp) kept inside follows separate⟩
  · rw [List.append_nil]
    exact sound.good
  · rw [List.append_nil, Set.union_empty]
    rfl

theorem construct_adopted {s : SharedPools} {itemSize count : Nat} {answers : List (Option Nat)} {pool : World}
    {r : Except Trap SharedPools} {sz : Nat} (sound : Sound s) (two : 2 ≤ count)
    (fits : max itemSize 8 * count < 2 ^ 64) (built : construct itemSize count count s.memory answers = some (.ok pool))
    (adopted : s.adopt ⟨sz, pool⟩ = some r) : ∃ next, r = .ok next ∧ Sound next := by
  obtain ⟨kept, unused, inside⟩ := construct_kept two fits built
  exact adopt_sound sound kept unused inside adopted

theorem getPool_spec {mgr : MemoryPoolManager} {size : Nat} {memory : Memory} {answer : Option Nat}
    {r : Except Trap (Nat × MemoryPoolManager)} (fits : size ≤ 2 ^ 57)
    (returned : mgr.getPool 64 size memory answer = some r) :
    (∃ i, r = .ok (i, mgr)) ∨ ∃ itemSize pool, max itemSize 8 * 64 < 2 ^ 64 ∧
      construct itemSize 64 64 memory [answer] = some (.ok pool) ∧
      r = .ok (mgr.pools.length, ⟨mgr.pools ++ [⟨itemSize, pool⟩]⟩) := by
  obtain ⟨k, large, power⟩ := MemoryPoolManager.exists_roundUp size
  have small : MemoryPoolManager.roundUp size ≤ 2 ^ 57 := (MemoryPoolManager.roundUp_le_iff (by decide)).mpr fits
  have bound : k ≤ 57 := by
    rw [power] at small
    exact (Nat.pow_le_pow_iff_right (by decide)).mp small
  obtain ⟨n, rfl⟩ := Nat.exists_eq_add_of_le large
  have few := MemoryPoolManager.loop_rounds power (by omega) (Nat.le_refl 6)
  have rounds : loop (MemoryPoolManager.roundBody size) 64 64 = some (MemoryPoolManager.roundUp size) :=
    loop_mono few (by omega)
  rw [MemoryPoolManager.getPool, rounds] at returned
  dsimp only at returned
  split at returned
  · rename_i i _
    exact .inl ⟨i, (Option.some.inj returned).symm⟩
  · have product : max (MemoryPoolManager.roundUp size) 8 * 64 < 2 ^ 64 := by omega
    obtain ⟨result, built, rest⟩ := bind_eq_some returned
    obtain ⟨pool, rfl, -⟩ := construct_good (by decide) product built
    exact .inr ⟨_, pool, product, built, (Option.some.inj (rest pool rfl)).symm⟩

theorem getPool_sound {s : SharedPools} {size : Nat} {answer : Option Nat} {r : Except Trap SharedPools}
    (sound : Sound s) (fits : size ≤ 2 ^ 57) (returned : s.getPool size answer = some r) :
    ∃ next, r = .ok next ∧ Sound next := by
  rw [getPool] at returned
  obtain ⟨result, call, rest⟩ := bind_eq_some returned
  rcases getPool_spec fits call with ⟨i, rfl⟩ | ⟨itemSize, pool, product, built, rfl⟩
  · have last := rest _ rfl
    have none_new : s.mgr.pools[s.mgr.pools.length]? = none := List.getElem?_eq_none (Nat.le_refl _)
    simp only [none_new] at last
    exact ⟨s, (Option.some.inj last).symm, sound⟩
  · have last := rest _ rfl
    have new : (s.mgr.pools ++ [(⟨itemSize, pool⟩ : PoolEntry)])[s.mgr.pools.length]? = some ⟨itemSize, pool⟩ := by
      simp
    simp only [new] at last
    exact construct_adopted sound (by decide) product built last

theorem addPools_sound {sizes : List Nat} {answers : List (Option Nat)} {s : SharedPools} {r : Except Trap SharedPools}
    (fits : ∀ sz ∈ sizes, max sz 8 * 32 < 2 ^ 64) (sound : Sound s) (added : addPools sizes answers s = some r) :
    ∃ next, r = .ok next ∧ Sound next := by
  induction sizes generalizing answers s with
  | nil => exact ⟨s, (Option.some.inj added).symm, sound⟩
  | cons sz sizes ih =>
      have product := fits sz List.mem_cons_self
      rw [addPools] at added
      obtain ⟨result, built, rest⟩ := bind_eq_some added
      obtain ⟨pool, rfl, -⟩ := construct_good (by decide) product built
      obtain ⟨result, adopted, rest⟩ := bind_eq_some (rest pool rfl)
      obtain ⟨mid, rfl, kept⟩ := construct_adopted sound (by decide) product built adopted
      exact ih (fun other member => fits other (List.mem_cons_of_mem _ member)) kept (rest mid rfl)

theorem split_at {α : Type} {xs : List α} {i : Nat} {x : α} (found : xs[i]? = some x) :
    ∃ l r, xs = l ++ x :: r ∧ ∀ y, xs.set i y = l ++ y :: r := by
  obtain ⟨inside, rfl⟩ := List.getElem?_eq_some_iff.mp found
  refine ⟨xs.take i, xs.drop (i + 1), ?_, fun y => ?_⟩
  · rw [List.getElem_cons_drop, List.take_append_drop]
  · rw [List.set_eq_take_append_cons_drop, if_pos inside]

theorem inPool_sound {s : SharedPools} {i : Nat} {entry : PoolEntry} {action : MemoryPool.Action}
    {r : Except Trap SharedPools} (sound : Sound s) (found : s.mgr.pools[i]? = some entry)
    (returned : s.inPool i entry action = some r) : ∃ next, r = .ok next ∧ Sound next := by
  rw [inPool] at returned
  obtain ⟨result, stepped, rest⟩ := bind_eq_some returned
  obtain ⟨l, r', pools, replaced⟩ := split_at found
  have member : entry ∈ s.mgr.pools := List.mem_of_getElem? found
  obtain ⟨free, good⟩ := sound.good entry member
  obtain ⟨w, rfl, kept⟩ := step_good stepped ⟨free, good⟩
  have refines := step_refines good stepped
  obtain ⟨rfl, separate⟩ := accept_eq (rest w rfl)
  have beside : ∀ other ∈ l ++ r', other ∈ s.mgr.pools := by
    intro other member
    rw [pools, List.mem_append, List.mem_cons]
    rcases List.mem_append.mp member with early | late
    · exact .inl early
    · exact .inr (.inr late)
  refine ⟨_, rfl, ?_⟩
  dsimp only at separate
  rw [replaced] at separate ⊢
  refine @placed_sound s l r' { entry with pool := w } _ _ sound.reaches
    (fun other member => sound.good other (beside other member)) (view_split pools) ?_ kept refines.inside
    refines.follows separate
  rintro block ⟨other, member, mine⟩ old member'
  obtain ⟨free', good'⟩ := sound.good other (beside other member)
  have separate := sound.separate
  rw [pools] at separate
  have clear : Clear (s.world other) (s.world entry) := clear_of_separate separate member
  exact clear.apart good' good mine member'

theorem step_sound {s : SharedPools} {action : Action} {r : Except Trap SharedPools} (fits : action.Fits)
    (stepped : step s action = some r) (sound : Sound s) : ∃ next, r = .ok next ∧ Sound next := by
  cases action with
  | getPool size answer => exact getPool_sound sound fits stepped
  | preAlloc answers => exact addPools_sound (by decide) sound stepped
  | pool i action =>
      rw [step] at stepped
      split at stepped
      · cases stepped
      · rename_i entry found
        exact inPool_sound sound found stepped

/-! ## The counts -/

theorem nodup_flatMap {s : SharedPools} (separate : Separate s.mgr.pools) {cells : PoolEntry → List Nat}
    (each : ∀ entry ∈ s.mgr.pools, (cells entry).Nodup)
    (owned : ∀ entry ∈ s.mgr.pools, ∀ a ∈ cells entry, entry.pool.owns a 1) : (s.mgr.pools.flatMap cells).Nodup := by
  rw [List.nodup_flatMap]
  refine ⟨each, separate.imp_of_mem fun {entry other} member member' clear a mine its => ?_⟩
  exact Clear.not_owns clear (owned other member' a its) (owned entry member a mine)

/-- What `stats` adds up, without the wrapping of `size_t`. -/
theorem countIn_sum {pools : List PoolEntry} {s : MemoryPoolManager.Stats}
    (total : s.totalBlocks + (pools.map fun entry => entry.pool.pool.totalBlocks).sum < 2 ^ 64)
    (free : s.freeBlocks + (pools.map fun entry => entry.pool.pool.freeBlocks).sum < 2 ^ 64) :
    (pools.foldl MemoryPoolManager.countIn s).totalBlocks =
        s.totalBlocks + (pools.map fun entry => entry.pool.pool.totalBlocks).sum ∧
      (pools.foldl MemoryPoolManager.countIn s).freeBlocks =
        s.freeBlocks + (pools.map fun entry => entry.pool.pool.freeBlocks).sum := by
  induction pools generalizing s with
  | nil => exact ⟨rfl, rfl⟩
  | cons entry pools ih =>
      rw [List.map_cons, List.sum_cons, ← Nat.add_assoc] at total free
      have fits := size64_of_lt (n := s.totalBlocks + entry.pool.pool.totalBlocks) (by omega)
      have fits' := size64_of_lt (n := s.freeBlocks + entry.pool.pool.freeBlocks) (by omega)
      obtain ⟨totals, frees⟩ := ih (s := MemoryPoolManager.countIn s entry)
        (by rw [MemoryPoolManager.countIn, fits]; exact total) (by rw [MemoryPoolManager.countIn, fits']; exact free)
      rw [List.foldl_cons, totals, frees, MemoryPoolManager.countIn, fits, fits']
      simp [Nat.add_assoc]

def held (s : SharedPools) : List Nat := s.mgr.pools.flatMap fun entry => entry.pool.handedOut

theorem Sound.owns {s : SharedPools} (sound : Sound s) {entry : PoolEntry} (member : entry ∈ s.mgr.pools) {a : Nat}
    (cell : a ∈ (s.world entry).blocks) : entry.pool.owns a 1 := by
  obtain ⟨free, good⟩ := sound.good entry member
  obtain ⟨-, -, owned⟩ := good.cell_range (good.cells.mem_iff.mpr cell)
  exact owned.shrink good.positive

theorem Sound.held_nodup {s : SharedPools} (sound : Sound s) : s.held.Nodup := by
  refine nodup_flatMap sound.separate ?_ ?_
  · intro entry member
    obtain ⟨free, good⟩ := sound.good entry member
    exact good.nodup.of_append_right
  · intro entry member a mine
    obtain ⟨free, good⟩ := sound.good entry member
    exact sound.owns member (good.cells.mem_iff.mp (List.mem_append_right _ mine))

theorem Sound.blocks_few {s : SharedPools} (sound : Sound s) :
    (s.mgr.pools.flatMap fun entry => (s.world entry).blocks).length < 2 ^ 64 := by
  have nodup : (s.mgr.pools.flatMap fun entry => (s.world entry).blocks).Nodup := by
    refine nodup_flatMap sound.separate ?_ fun entry member a cell => sound.owns member cell
    intro entry member
    obtain ⟨free, good⟩ := sound.good entry member
    exact good.cells.nodup_iff.mp good.nodup
  have within : (s.mgr.pools.flatMap fun entry => (s.world entry).blocks).toFinset ⊆ Finset.Ioo 0 (2 ^ 64) := by
    intro a among
    obtain ⟨entry, member, cell⟩ := List.mem_flatMap.mp (List.mem_toFinset.mp among)
    obtain ⟨free, good⟩ := sound.good entry member
    have range := good.cell_range (good.cells.mem_iff.mpr cell)
    exact Finset.mem_Ioo.mpr ⟨range.1, range.2.1⟩
  have bound := Finset.card_le_card within
  rw [List.toFinset_card_of_nodup nodup, Nat.card_Ioo] at bound
  omega

theorem Sound.view_ncard {s : SharedPools} (sound : Sound s) : s.view.ncard = s.held.length := by
  have places : Block.base '' s.view = (s.held.toFinset : Set Nat) := by
    ext a
    simp only [Set.mem_image, List.coe_toFinset, Set.mem_ofPred_eq, held, List.mem_flatMap]
    constructor
    · rintro ⟨block, ⟨entry, member, mine⟩, rfl⟩
      exact ⟨entry, member, mine.1⟩
    · rintro ⟨entry, member, mine⟩
      exact ⟨⟨a, bytesAt s.memory a entry.pool.pool.itemSize⟩, ⟨entry, member, mine, rfl⟩, rfl⟩
  have distinct : Set.InjOn Block.base s.view := by
    intro block member other member' same
    by_contra differs
    exact (sound.reaches.apart member member' differs).1 same
  rw [← distinct.ncard_image, places, Set.ncard_coe_finset, List.toFinset_card_of_nodup sound.held_nodup]

theorem Sound.counted {s : SharedPools} (sound : Sound s) :
    s.mgr.stats.usedBlocks = s.view.ncard ∧
      s.mgr.stats.freeBlocks + s.mgr.stats.usedBlocks = s.mgr.stats.totalBlocks := by
  have few := sound.blocks_few
  have parts : (s.mgr.pools.map fun entry => entry.pool.pool.totalBlocks).sum =
      (s.mgr.pools.flatMap fun entry => (s.world entry).blocks).length := by
    rw [List.length_flatMap]
    congr 1
    refine List.map_congr_left fun entry member => ?_
    obtain ⟨free, good⟩ := sound.good entry member
    exact good.totalBlocks
  have split : (s.mgr.pools.map fun entry => entry.pool.pool.totalBlocks).sum =
      (s.mgr.pools.map fun entry => entry.pool.pool.freeBlocks).sum + s.held.length := by
    rw [held, List.length_flatMap, ← List.sum_map_add]
    congr 1
    refine List.map_congr_left fun entry member => ?_
    obtain ⟨free, good⟩ := sound.good entry member
    have total : entry.pool.pool.totalBlocks = (s.world entry).blocks.length := good.totalBlocks
    have left : entry.pool.pool.freeBlocks = free.length := good.freeBlocks
    rw [total, left]
    exact good.counts.1.symm
  obtain ⟨totals, frees⟩ := @countIn_sum s.mgr.pools {} (by simpa [parts] using few) (by simp; omega)
  simp only [Nat.zero_add] at totals frees
  rw [sound.view_ncard]
  rw [MemoryPoolManager.stats]
  dsimp only
  rw [totals, frees, split, size64]
  omega

/-! ## Runs -/

/-- The pools together are one allocator, and their statistics count what it has given. -/
structure Shares (s : SharedPools) : Prop where
  refines : Blocks.Reaches s.log s.view
  apart : s.view.Pairwise Block.Apart
  newest : ∀ block, block ∈ s.view ↔
    ((s.log.find? fun event => event.base = block.base).bind Blocks.Event.leaves) = some block
  used : s.mgr.stats.usedBlocks = s.view.ncard
  sum : s.mgr.stats.freeBlocks + s.mgr.stats.usedBlocks = s.mgr.stats.totalBlocks

theorem initial_sound (memory : Memory) : Sound { memory } where
  good := by simp
  separate := .nil
  reaches := by
    have nothing : ({ memory } : SharedPools).view = ∅ := by
      ext block
      simp [view]
    rw [nothing]
    exact .start

theorem pools_share_memory (memory : Memory) (actions : List Action) (result : Except Trap SharedPools)
    (fits : ∀ action ∈ actions, action.Fits) (ran : exec (orFault step) (.ok { memory }) actions = some result) :
    ∃ s, result = .ok s ∧ Shares s := by
  have each : Respects (fun _ action => Action.Fits action) (orFault step) (.ok { memory }) actions :=
    respects_of_forall fits _
  have sound : ∃ s, result = .ok s ∧ Sound s := by
    refine exec_invariant_of_respects (P := fun r => ∃ s, r = .ok s ∧ Sound s) ?_ ran each
      ⟨_, rfl, initial_sound memory⟩
    rintro _ action r stepped permitted ⟨s, rfl, sound⟩
    exact step_sound permitted stepped sound
  obtain ⟨s, rfl, sound⟩ := sound
  exact ⟨s, rfl, sound.reaches, sound.reaches.apart, sound.reaches.mem_iff, sound.counted.1, sound.counted.2⟩

def busyRun : List Action :=
  [.preAlloc [], .pool 0 (.allocate (some 4096)), .pool 1 (.allocate (some 8192)), .pool 0 (.write 4096 fun _ => 7),
    .getPool 100 (some 65536), .pool 1 (.allocate none), .pool 0 (.deallocate 4096)]

theorem pools_share_memory_in_busyRun :
    ∃ result, exec (orFault step) (.ok { memory := fun _ => 0 }) busyRun = some result ∧
      ∃ s, result = .ok s ∧ Shares s := by
  obtain ⟨result, ran⟩ : ∃ result, exec (orFault step) (.ok { memory := fun _ => 0 }) busyRun = some result :=
    ⟨_, rfl⟩
  refine ⟨result, ran, pools_share_memory (fun _ => 0) busyRun result ?_ ran⟩
  simp [busyRun, Action.Fits]

end SharedPools

end ServerFramework.Base
