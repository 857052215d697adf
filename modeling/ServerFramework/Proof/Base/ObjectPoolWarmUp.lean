import ServerFramework.Proof.Base.ObjectPoolCalls

namespace ServerFramework.Base
open Library

namespace ObjectPool

/-! ## Rounds of `allocate` and `deallocate` -/

/-- The slots that rounds leave on the free list, those of a new chunk when there were none. -/
inductive Filled (pool later : ObjectPool) (free free' : List Nat) : Prop
  | kept (slots : free' = free) (chunks : later.chunks = pool.chunks)
  | chunk (empty : free = []) (slots : free'.length = 64) (chunks : later.chunks = pool.chunks ++ [pool.made])

structure Lent (pool later : ObjectPool) : Prop where
  owned : later.owned = pool.owned
  allocated : later.allocated = pool.allocated

section Rounds

variable {pool : ObjectPool} {elsewhere free : List Nat}

/-- An `allocate` in which nothing throws. -/
theorem Sound.lend (sound : Sound pool elsewhere free) : ∃ slot lent rest, pool.allocate none = (lent, .object slot) ∧
    Sound lent (slot :: elsewhere) rest ∧ lent.owned = slot :: pool.owned ∧ lent.allocated = pool.allocated + 1 ∧
      (free = slot :: rest ∧ lent.chunks = pool.chunks ∨
        free = [] ∧ rest.length = 63 ∧ lent.chunks = pool.chunks ++ [pool.made]) := by
  obtain ⟨slot, popped, taken⟩ := takeSlot_some pool
  obtain ⟨rest, after, source⟩ := sound.take taken
  have ends := @allocate_eq _ _ _ none taken (by simp)
  have untouched := takeSlot_untouched taken
  obtain ⟨-, owned, lent⟩ := @constructed _ _ _ _ after none (by simp) (by simp)
  refine ⟨slot, (popped.construct slot none).1, rest, ends, lent, ?_, ?_, source⟩
  · rw [owned, untouched.owned]
  · exact congrArg (· + 1) untouched.allocated

/-- The slot that a round gives back is the first on the free list again. -/
theorem round_sound (sound : Sound pool elsewhere free) : ∃ slot lent free', pool.allocate none = (lent, .object slot) ∧
    Sound (lent.deallocate slot) elsewhere free' ∧ free' ≠ [] ∧ Filled pool (lent.deallocate slot) free free' ∧
    Lent pool (lent.deallocate slot) := by
  obtain ⟨slot, lent, rest, ends, after, owned, allocated, source⟩ := sound.lend
  refine ⟨slot, lent, slot :: rest, ends, after.deallocate, List.cons_ne_nil _ _, ?_, ?_, ?_⟩
  · rcases source with ⟨same, chunks⟩ | ⟨empty, length, chunks⟩
    · exact .kept same.symm chunks
    · exact .chunk empty (by rw [List.length_cons, length]) chunks
  · change lent.owned.erase slot = pool.owned
    rw [owned, List.erase_cons_head]
  · change lent.allocated - 1 = pool.allocated
    rw [allocated, Nat.add_sub_cancel]

theorem preAllocate_filled (count : Nat) (sound : Sound pool elsewhere free) :
    ∃ free', Sound (preAllocate (fun _ => none) count pool) elsewhere free' ∧ (free' = [] → count = 0) ∧
      Filled pool (preAllocate (fun _ => none) count pool) free free' ∧
      Lent pool (preAllocate (fun _ => none) count pool) := by
  induction count generalizing pool free with
  | zero => exact ⟨free, sound, fun _ => rfl, .kept rfl rfl, rfl, rfl⟩
  | succ n ih =>
      obtain ⟨slot, lent, first, ends, once, nonempty, filled, same⟩ := round_sound sound
      obtain ⟨free', after, -, more, later⟩ := ih once
      have unfolded : preAllocate (fun _ => none) (n + 1) pool =
          preAllocate (fun _ => none) n (lent.deallocate slot) := by
        rw [preAllocate, ends]
      rw [unfolded]
      -- The first round leaves a slot on the list, so that no later one finds the list empty.
      obtain ⟨slots, chunks⟩ : free' = first ∧ (preAllocate (fun _ => none) n (lent.deallocate slot)).chunks =
          (lent.deallocate slot).chunks := by
        rcases more with ⟨slots, chunks⟩ | ⟨empty, -, -⟩
        · exact ⟨slots, chunks⟩
        · exact absurd empty nonempty
      refine ⟨free', after, ?_, ?_, later.owned.trans same.owned, later.allocated.trans same.allocated⟩
      · rw [slots]
        exact fun empty => absurd empty nonempty
      · rw [slots]
        rcases filled with ⟨unchanged, old⟩ | ⟨empty, length, new⟩
        · exact .kept unchanged (chunks.trans old)
        · exact .chunk empty length (chunks.trans new)

end Rounds

/-! ## Whole calls -/

def allocates : Nat → ObjectPool → ObjectPool
  | 0, pool => pool
  | n + 1, pool => allocates n (pool.allocate none).1

theorem allocates_chunks {pool : ObjectPool} {elsewhere free : List Nat} (sound : Sound pool elsewhere free) {count : Nat}
    (enough : count ≤ free.length) : (allocates count pool).chunks = pool.chunks := by
  induction count generalizing pool elsewhere free with
  | zero => rfl
  | succ n ih =>
      obtain ⟨slot, lent, rest, ends, after, -, -, ⟨rfl, chunks⟩ | ⟨rfl, -, -⟩⟩ := sound.lend
      · rw [allocates, ends, ih after (Nat.le_of_succ_le_succ enough), chunks]
      · exact absurd enough (Nat.not_succ_le_zero n)

/-- What `pre_allocate` is for: `count` slots are free, so that as many calls of `allocate` need no memory; what was
added are whole chunks, all of it free. -/
structure WarmsUp (pool warmed : ObjectPool) (count : Nat) : Prop where
  enough : ∃ free, Chain warmed.next warmed.freeList free ∧ count ≤ free.length
  addsNone : (allocates count warmed).chunks = warmed.chunks
  wholeChunks : ∃ free free' added, Chain pool.next pool.freeList free ∧ Chain warmed.next warmed.freeList free' ∧
    warmed.chunks = pool.chunks ++ added ∧ free'.length = free.length + 64 * added.length
  lent : Lent pool warmed

/-- Every round gets the slot that the round before it gave back, so that the loop never adds more than one chunk. -/
theorem warms_up_iff (events : List Event) (pool : ObjectPool) (count : Nat)
    (ran : exec event {} events = some pool) :
    WarmsUp pool (preAllocate (fun _ => none) count pool) count ↔
      count ≤ pool.freeListSize ∨ pool.freeListSize = 0 ∧ count ≤ 64 := by
  obtain ⟨elsewhere, free, sound⟩ := (run_kept ran).sound
  obtain ⟨free', after, none_free, filled, lent⟩ := preAllocate_filled count sound
  have size := sound.size
  constructor
  · rintro ⟨⟨slots, chain, enough⟩, -, -, -⟩
    rw [chain.unique after.chain] at enough
    rcases filled with ⟨rfl, -⟩ | ⟨rfl, length, -⟩
    · exact .inl (size ▸ enough)
    · exact .inr ⟨size, length ▸ enough⟩
  · intro condition
    have enough : count ≤ free'.length := by
      rcases condition with enough | ⟨empty, small⟩
      · rcases filled with ⟨rfl, -⟩ | ⟨rfl, length, -⟩
        · exact size ▸ enough
        · rw [size] at enough
          exact Nat.le_trans enough (Nat.zero_le _)
      · rcases filled with ⟨rfl, -⟩ | ⟨-, length, -⟩
        · rw [none_free (List.eq_nil_of_length_eq_zero (size.symm.trans empty))]
          exact Nat.zero_le _
        · rw [length]
          exact small
    refine ⟨⟨free', after.chain, enough⟩, allocates_chunks after enough, ?_, lent⟩
    rcases filled with ⟨rfl, chunks⟩ | ⟨rfl, length, chunks⟩
    · exact ⟨free', free', [], sound.chain, after.chain, by rw [chunks, List.append_nil], rfl⟩
    · exact ⟨[], free', [pool.made], sound.chain, after.chain, chunks, length⟩

theorem lent_pool_warm : ∃ pool, exec event {} (.thread .allocate :: List.replicate 8 (.thread (.advance 0 true))) =
    some pool ∧ pool.owned = [1] ∧ WarmsUp pool (preAllocate (fun _ => none) 50 pool) 50 := by
  obtain ⟨pool, ran, ended⟩ := Option.map_eq_some_iff.mp (show
    (exec event {} (.thread .allocate :: List.replicate 8 (.thread (.advance 0 true)))).map
      (fun pool => (pool.owned, pool.freeListSize)) = some ([1], 63) by decide)
  simp only [Prod.mk.injEq] at ended
  refine ⟨pool, ran, ended.1, (warms_up_iff _ pool 50 ran).mpr (.inl ?_)⟩
  rw [ended.2]
  decide

theorem fresh_pool_short : (preAllocate (fun _ => none) 65 {}).freeListSize = 64 ∧
    ¬ WarmsUp {} (preAllocate (fun _ => none) 65 {}) 65 := by
  obtain ⟨free, sound, none_free, filled, -⟩ := preAllocate_filled 65 initial_good.sound
  have length : free.length = 64 := by
    rcases filled with ⟨rfl, -⟩ | ⟨-, length, -⟩
    · cases none_free rfl
    · exact length
  refine ⟨sound.size.trans length, ?_⟩
  rintro ⟨⟨slots, chain, enough⟩, -, -, -⟩
  rw [chain.unique sound.chain, length] at enough
  exact absurd enough (by decide)

end ObjectPool

end ServerFramework.Base
