import ServerFramework.Base.ObjectPoolCalls
import ServerFramework.Proof.Base.ObjectPool

namespace ServerFramework.Base
open Library

namespace ObjectPool

theorem grow_popFree (pool : ObjectPool) : ∃ slot popped, pool.grow.popFree = some (slot, popped) := by
  refine ⟨_, _, if_neg ?_⟩
  exact Nat.succ_ne_zero _

theorem takeSlot_some (pool : ObjectPool) : ∃ slot popped, pool.takeSlot = some (slot, popped) := by
  rw [takeSlot]
  cases popped : pool.popFree with
  | none => exact grow_popFree pool
  | some taken => exact ⟨taken.1, taken.2, rfl⟩

structure Untouched (pool later : ObjectPool) : Prop where
  owned : later.owned = pool.owned
  calls : later.calls = pool.calls
  allocated : later.allocated = pool.allocated
  totalCreated : later.totalCreated = pool.totalCreated

theorem takeSlot_untouched {pool popped : ObjectPool} {slot : Nat} (taken : pool.takeSlot = some (slot, popped)) :
    Untouched pool popped := by
  rw [takeSlot] at taken
  cases first : pool.popFree with
  | none =>
      rw [first] at taken
      rw [popFree_some taken]
      exact ⟨rfl, rfl, rfl, rfl⟩
  | some other =>
      rw [first] at taken
      cases taken
      rw [popFree_some first]
      exact ⟨rfl, rfl, rfl, rfl⟩

theorem allocate_eq {pool popped : ObjectPool} {slot : Nat} {thrown : Option Thrown}
    (taken : pool.takeSlot = some (slot, popped)) (made : ¬ (pool.popFree.isNone ∧ thrown = some .chunk)) :
    pool.allocate thrown = popped.construct slot thrown := by
  rw [allocate, if_neg made, taken]

namespace Sound

variable {pool : ObjectPool} {elsewhere free : List Nat}

theorem grow (sound : Sound pool elsewhere free) : Sound pool.grow elsewhere (slots pool.made ++ free) := by
  have made : Sound { pool with made := pool.made + 1 } elsewhere free :=
    ⟨sound.chain, sound.cells, sound.distinct, fun chunk member => Nat.lt_succ_of_lt (sound.known chunk member), sound.size⟩
  apply made.splice
  · intro member
    exact Nat.lt_irrefl _ (sound.known pool.made member)
  · exact Nat.lt_succ_self _

theorem empty_iff (sound : Sound pool elsewhere free) : pool.popFree = none ↔ free = [] := by
  constructor
  · intro popped
    have chain := sound.chain
    rw [popFree_none popped] at chain
    exact chain.nil_of_null
  · rintro rfl
    exact if_pos sound.chain

/-- The slot comes from the free list, or is the first one of a new chunk when there is none. -/
theorem take {slot : Nat} {popped : ObjectPool} (sound : Sound pool elsewhere free)
    (taken : pool.takeSlot = some (slot, popped)) : ∃ rest, Sound popped (slot :: elsewhere) rest ∧
      (free = slot :: rest ∧ popped.chunks = pool.chunks ∨
        free = [] ∧ rest.length = 63 ∧ popped.chunks = pool.chunks ++ [pool.made]) := by
  rw [takeSlot] at taken
  cases first : pool.popFree with
  | none =>
      rw [first] at taken
      have empty := sound.empty_iff.mp first
      obtain ⟨rest, fresh, after⟩ := sound.grow.pop taken
      refine ⟨rest, after, .inr ⟨empty, ?_, ?_⟩⟩
      · have length := congrArg List.length fresh
        rw [empty, List.append_nil, slots_length, List.length_cons] at length
        omega
      · rw [popFree_some taken]
        rfl
  | some other =>
      rw [first] at taken
      cases taken
      obtain ⟨rest, same, after⟩ := sound.pop first
      refine ⟨rest, after, .inl ⟨same, ?_⟩⟩
      rw [popFree_some first]

end Sound

/-! ## How a construction ends -/

section Construct

variable {pool : ObjectPool} {slot : Nat} {elsewhere free : List Nat}

theorem constructed (sound : Sound pool (slot :: elsewhere) free) {thrown : Option Thrown}
    (fine : thrown ≠ some .construct) (created : thrown ≠ some .onCreate) :
    (pool.construct slot thrown).2 = .object slot ∧ (pool.construct slot thrown).1.owned = slot :: pool.owned ∧
      Sound (pool.construct slot thrown).1 (slot :: elsewhere) free := by
  rcases thrown with _ | _ | _ | _
  · exact ⟨rfl, rfl, sound.chain, sound.cells, sound.distinct, sound.known, sound.size⟩
  · exact ⟨rfl, rfl, sound.chain, sound.cells, sound.distinct, sound.known, sound.size⟩
  · exact absurd rfl fine
  · exact absurd rfl created

/-- `T()` throws: the slot goes back, and `total_created_` stays one higher. -/
theorem construct_thrown (sound : Sound pool (slot :: elsewhere) free) :
    Sound (pool.construct slot (some .construct)).1 elsewhere (slot :: free) ∧
      (pool.construct slot (some .construct)).1.owned = pool.owned ∧
      (pool.construct slot (some .construct)).1.allocated = pool.allocated ∧
      (pool.construct slot (some .construct)).1.totalCreated = pool.totalCreated + 1 := by
  have pushed := sound.push
  exact ⟨⟨pushed.chain, pushed.cells, pushed.distinct, pushed.known, pushed.size⟩, rfl, rfl, rfl⟩

/-- `on_create_` throws: nothing is undone, and nobody has the slot. -/
theorem onCreate_thrown (sound : Sound pool (slot :: elsewhere) free) :
    Sound (pool.construct slot (some .onCreate)).1 (slot :: elsewhere) free ∧
      (pool.construct slot (some .onCreate)).1.owned = pool.owned ∧
      (pool.construct slot (some .onCreate)).1.allocated = pool.allocated + 1 ∧
      (pool.construct slot (some .onCreate)).1.totalCreated = pool.totalCreated + 1 :=
  ⟨⟨sound.chain, sound.cells, sound.distinct, sound.known, sound.size⟩, rfl, rfl, rfl⟩

theorem Sound.deallocate (sound : Sound pool (slot :: elsewhere) free) :
    Sound (pool.deallocate slot) elsewhere (slot :: free) := by
  have erased : Sound { pool with owned := pool.owned.erase slot } (slot :: elsewhere) free :=
    ⟨sound.chain, sound.cells, sound.distinct, sound.known, sound.size⟩
  have pushed := erased.push
  exact ⟨pushed.chain, pushed.cells, pushed.distinct, pushed.known, pushed.size⟩

end Construct

/-! ## Runs with any failures -/

/-- Beside the calls there are those that left by an exception: their slots stay in their hands, and behind a `clear`
they still count. -/
def Kept (pool : ObjectPool) : Prop := ∃ others free, Good pool (pool.calls ++ others) free

theorem idle_ended {call : Call} (idle : call.idle) : call.hand = [] ∧ call.fresh = [] ∧ call.counted = false := by
  obtain ⟨rounds, phase⟩ := call
  cases phase with
  | returned outcome => exact ⟨rfl, rfl, rfl⟩
  | _ => cases idle

theorem idle_uncounted {calls : List Call} (idle : calls.all Call.idle) : calls.countP Call.counted = 0 := by
  rw [List.countP_eq_zero]
  intro call member
  rw [(idle_ended (List.all_eq_true.mp idle call member)).2.2]
  exact Bool.false_ne_true

theorem clear_good {pool : ObjectPool} {others : List Call} (lent : pool.owned = []) (idle : pool.calls.all Call.idle)
    (hand : others.flatMap Call.hand = []) (fresh : others.flatMap Call.fresh = [])
    (counted : pool.allocated = others.countP Call.counted) : Good pool.clear (pool.clear.calls ++ others) [] := by
  have ended (call : Call) (member : call ∈ pool.calls) := idle_ended (List.all_eq_true.mp idle call member)
  have hands : (pool.calls ++ others).flatMap Call.hand = [] := by
    rw [List.flatMap_append, hand, List.append_nil, List.flatMap_eq_nil_iff]
    exact fun call member => (ended call member).1
  have chunks : (pool.calls ++ others).flatMap Call.fresh = [] := by
    rw [List.flatMap_append, fresh, List.append_nil, List.flatMap_eq_nil_iff]
    exact fun call member => (ended call member).2.1
  refine ⟨rfl, ?_, ?_, ?_, rfl, ?_⟩
  · change ([] ++ (pool.owned ++ (pool.calls ++ others).flatMap Call.hand)).Perm []
    rw [lent, hands]
    exact .nil
  · change ([] ++ (pool.calls ++ others).flatMap Call.fresh).Nodup
    rw [chunks]
    exact .nil
  · change ∀ chunk ∈ [] ++ (pool.calls ++ others).flatMap Call.fresh, chunk < pool.made
    rw [chunks]
    exact fun chunk member => absurd member List.not_mem_nil
  · change pool.allocated = pool.owned.length + (pool.calls ++ others).countP Call.counted
    rw [List.countP_append, idle_uncounted idle, lent, counted]
    simp

theorem createThrows_cases {pool next : ObjectPool} {i : Nat} (stepped : pool.event (.createThrows i) = some next) :
    ∃ rounds slot, pool.calls[i]? = some ⟨rounds, .creating slot⟩ ∧
      next = { pool with calls := pool.calls.eraseIdx i } := by
  obtain ⟨⟨rounds, phase⟩, here, rest⟩ := Option.bind_eq_some_iff.mp stepped
  cases phase with
  | creating slot =>
      cases rest
      exact ⟨rounds, slot, here, rfl⟩
  | _ => cases rest

theorem event_kept {pool next : ObjectPool} {event : Event} (stepped : pool.event event = some next) (kept : Kept pool) :
    Kept next := by
  obtain ⟨others, free, good⟩ := kept
  cases event with
  | thread action =>
      obtain ⟨free', after⟩ := step_good_beside stepped good
      exact ⟨others, free', after⟩
  | createThrows i =>
      obtain ⟨rounds, slot, here, rfl⟩ := createThrows_cases stepped
      refine ⟨⟨rounds, .creating slot⟩ :: others, free, ?_⟩
      have moved : (pool.calls ++ others).Perm (pool.calls.eraseIdx i ++ ⟨rounds, .creating slot⟩ :: others) :=
        ((perm_focus here).append_right others).trans List.perm_middle.symm
      have after := good.perm moved
      exact ⟨after.chain, after.cells, after.fresh, after.made, after.size, after.counted⟩
  | clear =>
      obtain ⟨⟨lent, idle⟩, same⟩ := Option.ite_none_right_eq_some.mp stepped
      cases same
      refine ⟨List.replicate pool.allocated ⟨none, .uncount⟩, [], clear_good lent idle ?_ ?_ ?_⟩
      · exact List.flatMap_eq_nil_iff.mpr fun call member => by rw [List.eq_of_mem_replicate member]; rfl
      · exact List.flatMap_eq_nil_iff.mpr fun call member => by rw [List.eq_of_mem_replicate member]; rfl
      · rw [List.countP_replicate]
        rfl

theorem run_kept {pool : ObjectPool} {events : List Event} (ran : exec event {} events = some pool) : Kept pool := by
  apply exec_invariant (fun _ _ _ stepped => event_kept stepped) ran
  exact ⟨[], [], initial_good⟩

theorem event_good {pool next : ObjectPool} {event : Event} {free : List Nat} (stepped : pool.event event = some next)
    (quiet : ∀ i, event ≠ .createThrows i) (good : Good pool pool.calls free) : ∃ free', Good next next.calls free' := by
  cases event with
  | thread action => exact step_good stepped good
  | createThrows i => exact absurd rfl (quiet i)
  | clear =>
      obtain ⟨⟨lent, idle⟩, same⟩ := Option.ite_none_right_eq_some.mp stepped
      cases same
      have counted := good.counted
      rw [lent, idle_uncounted idle] at counted
      have after := @clear_good pool [] lent idle rfl rfl counted
      rw [List.append_nil] at after
      exact ⟨[], after⟩

/-- Free slots, objects held by callers and slots that running calls have in their hands are the slots of the chunks,
and `pool_size()` counts the free ones. -/
def Conserved (pool : ObjectPool) : Prop :=
  ∃ free, Chain pool.next pool.freeList free ∧ pool.freeListSize = free.length ∧
    free.length + pool.owned.length + (pool.calls.flatMap Call.hand).length = 64 * pool.chunks.length

theorem Good.conserved {pool : ObjectPool} {free : List Nat} (good : Good pool pool.calls free) : Conserved pool := by
  have total := good.sound.total
  rw [List.length_append, ← Nat.add_assoc] at total
  exact ⟨free, good.chain, good.size, total⟩

theorem createThrows_unbalanced {pool next : ObjectPool} {i : Nat} {free : List Nat}
    (good : Good pool pool.calls free) (stepped : pool.event (.createThrows i) = some next) : ¬ Conserved next := by
  obtain ⟨rounds, slot, here, rfl⟩ := createThrows_cases stepped
  rintro ⟨free', -, size, balance⟩
  have before := good.sound.total
  have hands := ((perm_focus here).flatMap_right Call.hand).length_eq
  have inHand : Call.hand ⟨rounds, .creating slot⟩ = [slot] := rfl
  rw [List.flatMap_cons, inHand, List.length_append, List.length_singleton] at hands
  rw [List.length_append] at before
  have counted := good.size
  change pool.freeListSize = free'.length at size
  change free'.length + pool.owned.length + ((pool.calls.eraseIdx i).flatMap Call.hand).length =
    64 * pool.chunks.length at balance
  omega

structure Undone (pool : ObjectPool) (thrown : Thrown) : Prop where
  slotBack : ∀ slot popped, pool.takeSlot = some (slot, popped) →
    ∃ free, Chain (pool.allocate (some thrown)).1.next (pool.allocate (some thrown)).1.freeList free ∧ slot ∈ free
  allocated : (pool.allocate (some thrown)).1.allocated = pool.allocated
  size : ∃ free, Chain (pool.allocate (some thrown)).1.next (pool.allocate (some thrown)).1.freeList free ∧
    (pool.allocate (some thrown)).1.freeListSize = free.length

/-- What an `allocate` that throws should leave behind. -/
structure CleanFailure (pool : ObjectPool) (thrown : Thrown) : Prop extends Undone pool thrown where
  totalCreated : (pool.allocate (some thrown)).1.totalCreated = pool.totalCreated

section Failures

variable {pool : ObjectPool} {elsewhere free : List Nat}

theorem construct_undone (sound : Sound pool elsewhere free) :
    Undone pool .construct ∧ (pool.allocate (some .construct)).1.totalCreated = pool.totalCreated + 1 := by
  obtain ⟨slot, popped, taken⟩ := takeSlot_some pool
  obtain ⟨rest, after, -⟩ := sound.take taken
  have untouched := takeSlot_untouched taken
  have ends := @allocate_eq _ _ _ (some .construct) taken (by simp)
  obtain ⟨back, -, allocated, created⟩ := construct_thrown after
  rw [← ends] at back allocated created
  refine ⟨⟨?_, allocated.trans untouched.allocated, slot :: rest, back.chain, back.size⟩, ?_⟩
  · intro other popped' same
    obtain ⟨rfl, -⟩ := Prod.ext_iff.mp (Option.some.inj (taken.symm.trans same))
    exact ⟨slot :: rest, back.chain, List.mem_cons_self⟩
  · rw [created, untouched.totalCreated]

theorem onCreate_counted (sound : Sound pool elsewhere free) :
    (pool.allocate (some .onCreate)).1.allocated = pool.allocated + 1 ∧
      (pool.allocate (some .onCreate)).1.totalCreated = pool.totalCreated + 1 := by
  obtain ⟨slot, popped, taken⟩ := takeSlot_some pool
  obtain ⟨rest, after, -⟩ := sound.take taken
  have untouched := takeSlot_untouched taken
  have ends := @allocate_eq _ _ _ (some .onCreate) taken (by simp)
  obtain ⟨-, -, allocated, created⟩ := onCreate_thrown after
  rw [ends, allocated, created, untouched.allocated, untouched.totalCreated]
  exact ⟨rfl, rfl⟩

end Failures

theorem Kept.sound {pool : ObjectPool} (kept : Kept pool) : ∃ elsewhere free, Sound pool elsewhere free := by
  obtain ⟨others, free, good⟩ := kept
  exact ⟨_, free, good.sound⟩

/-- Neither failure is clean: `T()` leaves `total_created_` one higher, `on_create_` leaves everything as it was when it
threw. The slots are all accounted for until an `on_create_` throws. -/
theorem failures_accounted (events : List Event) (pool : ObjectPool) (ran : exec event {} events = some pool) :
    (∀ thrown, thrown = .construct ∨ thrown = .onCreate →
      ¬ CleanFailure pool thrown ∧ (Undone pool thrown ↔ thrown = .construct)) ∧
    ((∀ n earlier, exec event {} (events.take n) = some earlier → Conserved earlier) ↔
      ∀ e ∈ events, ∀ i, e ≠ .createThrows i) := by
  constructor
  · obtain ⟨elsewhere, free, sound⟩ := (run_kept ran).sound
    rintro thrown (rfl | rfl)
    · obtain ⟨undone, created⟩ := construct_undone sound
      refine ⟨fun clean => ?_, fun _ => rfl, fun _ => undone⟩
      have same := clean.totalCreated
      omega
    · obtain ⟨allocated, created⟩ := onCreate_counted sound
      refine ⟨fun clean => ?_, fun undone => ?_, nofun⟩
      · have same := clean.totalCreated
        omega
      · have same := undone.allocated
        omega
  · rw [← respects_iff_forall ran]
    apply always_iff_respects (I := fun pool => ∃ free, Good pool pool.calls free) _ _ _ ran
    · exact ⟨[], initial_good⟩
    · rintro before e after stepped quiet ⟨free, good⟩
      exact event_good stepped quiet good
    · rintro pool ⟨free, good⟩
      exact good.conserved
    · rintro before e after stepped ⟨free, good⟩ conserved i rfl
      exact createThrows_unbalanced good stepped conserved

def busyRun : List Event :=
  .thread .allocate :: List.replicate 8 (.thread (.advance 0 true)) ++
    [.thread .allocate, .thread (.advance 1 true), .thread (.advance 1 true), .thread (.advance 1 true),
      .thread (.advance 1 false), .thread (.advance 1 true), .thread (.advance 1 true)]

theorem busy_pool_conserved : ∃ pool, exec event {} busyRun = some pool ∧ pool.owned = [1] ∧ pool.totalCreated = 2 ∧
    Conserved pool := by
  obtain ⟨pool, ran, ended⟩ := Option.map_eq_some_iff.mp (show
    (exec event {} busyRun).map (fun pool => (pool.owned, pool.totalCreated)) = some ([1], 2) by decide)
  simp only [Prod.mk.injEq] at ended
  have quiet : ∀ e ∈ busyRun, ∀ i, e ≠ .createThrows i := by
    intro e member i same
    subst same
    revert member
    simp [busyRun]
  exact ⟨pool, ran, ended.1, ended.2, (failures_accounted busyRun pool ran).2.mpr quiet 16 pool ran⟩

/-- On a fresh pool: a constructor that throws is counted as created, and a callback that throws takes a slot out of the
world. -/
theorem failures_leak :
    (({} : ObjectPool).allocate (some .construct)).1.totalCreated = 1 ∧
    (({} : ObjectPool).allocate (some .onCreate)).1.allocated = 1 ∧
    (({} : ObjectPool).allocate (some .onCreate)).1.owned = [] ∧
    ¬ CleanFailure {} .construct ∧ ¬ CleanFailure {} .onCreate ∧
    ¬ Conserved (({} : ObjectPool).allocate (some .onCreate)).1 := by
  have created : (({} : ObjectPool).allocate (some .construct)).1.totalCreated = 1 := rfl
  have counted : (({} : ObjectPool).allocate (some .onCreate)).1.allocated = 1 := rfl
  have free_slots : (({} : ObjectPool).allocate (some .onCreate)).1.freeListSize = 63 := rfl
  have held : (({} : ObjectPool).allocate (some .onCreate)).1.owned = [] := rfl
  have chunks : (({} : ObjectPool).allocate (some .onCreate)).1.chunks = [0] := rfl
  have calls : (({} : ObjectPool).allocate (some .onCreate)).1.calls = [] := rfl
  refine ⟨created, counted, held, ?_, ?_, ?_⟩
  · intro clean
    have same := clean.totalCreated
    rw [created] at same
    cases same
  · intro clean
    have same := clean.allocated
    rw [counted] at same
    cases same
  · rintro ⟨free, -, size, balance⟩
    rw [held, chunks, calls, List.flatMap_nil, List.length_nil, List.length_singleton] at balance
    omega

end ObjectPool

end ServerFramework.Base
