import ServerFramework.Base.ObjectPool
import Mathlib.Data.List.Nodup
import Mathlib.Data.List.Perm.Basic

namespace ServerFramework.Base
open Library

namespace ObjectPool

/-! ## The slots of a chunk -/

def slots (chunk : Nat) : List Nat := (List.range' 0 chunkSize).map fun j => chunkBase chunk + j * 1

theorem slots_length (chunk : Nat) : (slots chunk).length = 64 := by
  rw [slots, List.length_map, List.length_range']
  rfl

theorem slot_range {chunk slot : Nat} (member : slot ∈ slots chunk) :
    chunkBase chunk ≤ slot ∧ slot < chunkBase (chunk + 1) := by
  obtain ⟨j, among, rfl⟩ := List.mem_map.mp member
  have bound := (List.mem_range'_1.mp among).2
  simp only [chunkBase, chunkSize] at bound ⊢
  omega

theorem slot_ne_null {chunk slot : Nat} (member : slot ∈ slots chunk) : slot ≠ 0 := by
  have lower := (slot_range member).1
  rw [chunkBase] at lower
  omega

theorem slots_nodup (chunk : Nat) : (slots chunk).Nodup := by
  apply List.Nodup.map _ List.nodup_range'
  intro i j same
  simpa using same

theorem slots_disjoint {a b : Nat} (apart : a ≠ b) : List.Disjoint (slots a) (slots b) := by
  intro slot left right
  have first := slot_range left
  have second := slot_range right
  simp only [chunkBase, chunkSize] at first second
  omega

theorem chunks_nodup {chunks : List Nat} (nodup : chunks.Nodup) : (chunks.flatMap slots).Nodup := by
  rw [List.nodup_flatMap]
  refine ⟨fun chunk _ => slots_nodup chunk, nodup.imp ?_⟩
  intro a b apart
  exact slots_disjoint apart

theorem chunks_length (chunks : List Nat) : (chunks.flatMap slots).length = 64 * chunks.length := by
  induction chunks with
  | nil => rfl
  | cons chunk chunks ih =>
      rw [List.flatMap_cons, List.length_append, slots_length, ih, List.length_cons]
      omega

theorem linkSlots_apply (base n i : Nat) (next : Nat → Nat) (positive : 0 < i) (p : Nat) :
    linkSlots base n i next p = if base + i - 1 ≤ p ∧ p < base + i - 1 + n then p + 1 else next p := by
  induction n generalizing i next with
  | zero =>
      rw [linkSlots, if_neg]
      omega
  | succ n ih =>
      rw [linkSlots, ih (i + 1) _ (by omega)]
      by_cases here : p = base + i - 1
      · rw [if_neg (by omega), setNext, if_pos here, if_pos (by omega)]
        omega
      · rw [setNext, if_neg here]
        by_cases later : base + (i + 1) - 1 ≤ p ∧ p < base + (i + 1) - 1 + n
        · rw [if_pos later, if_pos (by omega)]
        · rw [if_neg later, if_neg (by omega)]

theorem splice_chain {pool : ObjectPool} {chunk : Nat} {free : List Nat} (chain : Chain pool.next pool.freeList free)
    (apart : ∀ slot ∈ free, slot ∉ slots chunk) :
    Chain (pool.splice chunk).next (pool.splice chunk).freeList (slots chunk ++ free) := by
  let base := chunkBase chunk
  have value (p : Nat) : (pool.splice chunk).next p =
      if p = base + 63 then pool.freeList
      else if base ≤ p ∧ p < base + 63 then p + 1 else pool.next p := by
    simp only [splice, setNext]
    rw [linkSlots_apply _ _ _ _ Nat.one_pos]
    rfl
  apply @chain_progression (pool.splice chunk).next base 1 0 63 pool.freeList free (Nat.succ_pos _)
  · intro j _ upper
    rw [value, if_neg (by omega), if_pos (by omega)]
    omega
  · rw [value, if_pos (by omega)]
  · apply chain.congr
    intro slot member
    have outside : ¬ (base ≤ slot ∧ slot ≤ base + 63) := by
      rintro ⟨lower, upper⟩
      apply apart slot member
      refine List.mem_map.mpr ⟨slot - base, List.mem_range'_1.mpr ⟨Nat.zero_le _, ?_⟩, ?_⟩
      · simp only [chunkSize]
        omega
      · change base + (slot - base) * 1 = slot
        omega
    rw [value, if_neg (by omega), if_neg (by omega)]

theorem popFree_none {pool : ObjectPool} (popped : pool.popFree = none) : pool.freeList = 0 := by
  by_contra nonempty
  rw [popFree, if_neg nonempty] at popped
  cases popped

theorem popFree_some {pool popped : ObjectPool} {slot : Nat} (taken : pool.popFree = some (slot, popped)) :
    popped = { pool with freeList := pool.next pool.freeList, freeListSize := pool.freeListSize - 1 } := by
  by_cases null : pool.freeList = 0
  · rw [popFree, if_pos null] at taken
    cases taken
  · rw [popFree, if_neg null] at taken
    exact (congrArg Prod.snd (Option.some.inj taken)).symm

/-! ## The free list and the slots that are elsewhere -/

/-- The slots of the chunks are those on the free list and those that are elsewhere, each of them once. -/
structure Sound (pool : ObjectPool) (elsewhere free : List Nat) : Prop where
  chain : Chain pool.next pool.freeList free
  cells : (free ++ elsewhere).Perm (pool.chunks.flatMap slots)
  distinct : pool.chunks.Nodup
  known : ∀ chunk ∈ pool.chunks, chunk < pool.made
  size : pool.freeListSize = free.length

namespace Sound

variable {pool : ObjectPool} {elsewhere free : List Nat}

theorem perm {elsewhere' : List Nat} (sound : Sound pool elsewhere free) (same : elsewhere.Perm elsewhere') :
    Sound pool elsewhere' free :=
  ⟨sound.chain, (same.symm.append_left free).trans sound.cells, sound.distinct, sound.known, sound.size⟩

theorem nodup (sound : Sound pool elsewhere free) : (free ++ elsewhere).Nodup :=
  sound.cells.nodup_iff.mpr (chunks_nodup sound.distinct)

theorem nonnull (sound : Sound pool elsewhere free) {slot : Nat} (member : slot ∈ free ++ elsewhere) : slot ≠ 0 := by
  obtain ⟨chunk, -, inside⟩ := List.mem_flatMap.mp (sound.cells.mem_iff.mp member)
  exact slot_ne_null inside

theorem total (sound : Sound pool elsewhere free) : free.length + elsewhere.length = 64 * pool.chunks.length := by
  have length := sound.cells.length_eq
  rwa [chunks_length, List.length_append] at length

theorem pop {slot : Nat} {popped : ObjectPool} (sound : Sound pool elsewhere free)
    (taken : pool.popFree = some (slot, popped)) : ∃ rest, free = slot :: rest ∧ Sound popped (slot :: elsewhere) rest := by
  by_cases null : pool.freeList = 0
  · rw [popFree, if_pos null] at taken
    cases taken
  · rw [popFree, if_neg null] at taken
    cases taken
    obtain ⟨rest, rfl, tail⟩ := sound.chain.cons_of_nonnull null
    refine ⟨rest, rfl, tail, List.perm_middle.trans sound.cells, sound.distinct, sound.known, ?_⟩
    have size := sound.size
    simp only [List.length_cons] at size ⊢
    omega

theorem push {slot : Nat} (sound : Sound pool (slot :: elsewhere) free) :
    Sound (pool.pushFree slot) elsewhere (slot :: free) := by
  have apart : slot ∉ free := fun member =>
    (List.nodup_append.mp sound.nodup).2.2 slot member slot List.mem_cons_self rfl
  refine ⟨⟨rfl, ?_, ?_⟩, List.perm_middle.symm.trans sound.cells, sound.distinct, sound.known, ?_⟩
  · exact sound.nonnull (List.mem_append_right _ List.mem_cons_self)
  · simp only [pushFree, setNext, if_true]
    apply sound.chain.congr
    intro cell member
    have other : cell ≠ slot := by
      rintro rfl
      exact apart member
    rw [setNext, if_neg other]
  · rw [List.length_cons, ← sound.size]
    rfl

theorem splice {chunk : Nat} (sound : Sound pool elsewhere free) (absent : chunk ∉ pool.chunks)
    (made : chunk < pool.made) : Sound (pool.splice chunk) elsewhere (slots chunk ++ free) := by
  have chunks : (pool.splice chunk).chunks = pool.chunks ++ [chunk] := rfl
  refine ⟨splice_chain sound.chain ?_, ?_, ?_, ?_, ?_⟩
  · intro slot free_slot inside
    have among : slot ∈ pool.chunks.flatMap slots := sound.cells.mem_iff.mp (List.mem_append_left _ free_slot)
    obtain ⟨other, member, within⟩ := List.mem_flatMap.mp among
    have apart : other ≠ chunk := by
      rintro rfl
      exact absent member
    exact slots_disjoint apart within inside
  · rw [chunks, List.flatMap_append, List.flatMap_singleton, List.append_assoc]
    exact (sound.cells.append_left (slots chunk)).trans List.perm_append_comm
  · rw [chunks, ← List.concat_eq_append]
    exact sound.distinct.concat absent
  · intro other member
    rw [chunks] at member
    rcases List.mem_append.mp member with old | new
    · exact sound.known other old
    · rw [List.mem_singleton.mp new]
      exact made
  · rw [List.length_append, slots_length, Nat.add_comm, ← sound.size]
    rfl

end Sound

/-! ## The invariant -/

def Phase.hand : Phase → List Nat
  | .countAllocated slot | .countCreated slot | .constructing slot | .pushBack slot | .creating slot
  | .destroying slot | .pushing slot => [slot]
  | .popping | .making | .splicing _ | .popAgain | .uncount | .uncounting | .returned _ => []

def Phase.fresh : Phase → List Nat
  | .splicing chunk => [chunk]
  | _ => []

/-- The call stands between its additions to `allocated_` and its subtractions. -/
def Phase.counted : Phase → Bool
  | .countCreated _ | .constructing _ | .pushBack _ | .uncount | .creating _ | .destroying _ | .pushing _
  | .uncounting => true
  | .popping | .making | .splicing _ | .popAgain | .countAllocated _ | .returned _ => false

def Call.hand (call : Call) : List Nat := call.phase.hand

def Call.fresh (call : Call) : List Nat := call.phase.fresh

def Call.counted (call : Call) : Bool := call.phase.counted

structure Good (pool : ObjectPool) (calls : List Call) (free : List Nat) : Prop where
  chain : Chain pool.next pool.freeList free
  cells : (free ++ (pool.owned ++ calls.flatMap Call.hand)).Perm (pool.chunks.flatMap slots)
  fresh : (pool.chunks ++ calls.flatMap Call.fresh).Nodup
  made : ∀ chunk ∈ pool.chunks ++ calls.flatMap Call.fresh, chunk < pool.made
  size : pool.freeListSize = free.length
  counted : pool.allocated = pool.owned.length + calls.countP Call.counted

theorem Good.perm {pool : ObjectPool} {calls calls' : List Call} {free : List Nat} (good : Good pool calls free)
    (same : calls.Perm calls') : Good pool calls' free := by
  have hands := same.flatMap_right Call.hand
  have fresh := (same.flatMap_right Call.fresh).append_left pool.chunks
  refine ⟨good.chain, ?_, fresh.nodup_iff.mp good.fresh, ?_, good.size, ?_⟩
  · exact ((hands.symm.append_left _).append_left _).trans good.cells
  · intro chunk member
    exact good.made chunk (fresh.mem_iff.mpr member)
  · rw [good.counted, same.countP_eq]

theorem Good.nodup {pool : ObjectPool} {calls : List Call} {free : List Nat} (good : Good pool calls free) :
    (free ++ (pool.owned ++ calls.flatMap Call.hand)).Nodup :=
  good.cells.nodup_iff.mpr (chunks_nodup (List.nodup_append.mp good.fresh).1)

theorem Good.sound {pool : ObjectPool} {calls : List Call} {free : List Nat} (good : Good pool calls free) :
    Sound pool (pool.owned ++ calls.flatMap Call.hand) free :=
  ⟨good.chain, good.cells, (List.nodup_append.mp good.fresh).1, fun chunk member =>
    good.made chunk (List.mem_append_left _ member), good.size⟩

/-! ## What each kind of step does to it -/

section Turns

variable {pool : ObjectPool} {call later : Call} {others : List Call} {free : List Nat}

theorem hands_same (same : later.hand = call.hand) :
    (later :: others).flatMap Call.hand = (call :: others).flatMap Call.hand := by
  rw [List.flatMap_cons, List.flatMap_cons, same]

theorem fresh_same (same : later.fresh = call.fresh) :
    (later :: others).flatMap Call.fresh = (call :: others).flatMap Call.fresh := by
  rw [List.flatMap_cons, List.flatMap_cons, same]

theorem Good.chunks_kept (good : Good pool (call :: others) free) (same : later.fresh = call.fresh) :
    (pool.chunks ++ (later :: others).flatMap Call.fresh).Nodup ∧
      ∀ chunk ∈ pool.chunks ++ (later :: others).flatMap Call.fresh, chunk < pool.made := by
  rw [fresh_same same]
  exact ⟨good.fresh, good.made⟩

theorem counted_same (same : later.counted = call.counted) :
    (later :: others).countP Call.counted = (call :: others).countP Call.counted := by
  rw [List.countP_cons, List.countP_cons, same]

theorem Good.relabel (good : Good pool (call :: others) free) (hand : later.hand = call.hand)
    (fresh : later.fresh = call.fresh) (counted : later.counted = call.counted) : Good pool (later :: others) free := by
  obtain ⟨distinct, known⟩ := good.chunks_kept fresh
  refine ⟨good.chain, ?_, distinct, known, good.size, ?_⟩
  · rw [hands_same hand]
    exact good.cells
  · rw [counted_same counted]
    exact good.counted

theorem Good.update (i : Nat) (good : Good pool (later :: others) free) (kept : handedOver later = []) :
    Good (pool.update i later) (later :: others) free := by
  rw [ObjectPool.update, kept]
  exact ⟨good.chain, good.cells, good.fresh, good.made, good.size, good.counted⟩

theorem pop_cases {turned : ObjectPool} {otherwise after : Phase}
    (turns : (match pool.popFree with
      | none => some (pool, otherwise)
      | some (slot, popped) => some (popped, .countAllocated slot)) = some (turned, after)) :
    (pool.popFree = none ∧ turned = pool ∧ after = otherwise) ∨
      ∃ slot, pool.popFree = some (slot, turned) ∧ after = .countAllocated slot := by
  cases popped : pool.popFree with
  | none =>
      simp only [popped, Option.some.injEq, Prod.mk.injEq] at turns
      exact .inl ⟨rfl, turns.1.symm, turns.2.symm⟩
  | some taken =>
      simp only [popped, Option.some.injEq, Prod.mk.injEq] at turns
      exact .inr ⟨taken.1, by rw [← turns.1], turns.2.symm⟩

theorem Good.pop {slot : Nat} {popped : ObjectPool} (good : Good pool (call :: others) free)
    (taken : pool.popFree = some (slot, popped)) (before : call.hand = []) (after : later.hand = [slot])
    (fresh : later.fresh = call.fresh) (counted : later.counted = call.counted) :
    ∃ rest, free = slot :: rest ∧ Good popped (later :: others) rest := by
  obtain ⟨rest, same, sound⟩ := good.sound.pop taken
  obtain ⟨distinct, known⟩ := good.chunks_kept fresh
  obtain rfl := popFree_some taken
  refine ⟨rest, same, sound.chain, ?_, distinct, known, sound.size, ?_⟩
  · refine List.Perm.trans (List.Perm.append_left rest ?_) sound.cells
    rw [List.flatMap_cons, List.flatMap_cons, before, after]
    exact List.perm_middle
  · rw [counted_same counted]
    exact good.counted

theorem Good.taken {rounds : Option Nat} {phase : Phase} {slot : Nat} {popped : ObjectPool} (i : Nat)
    (good : Good pool (⟨rounds, phase⟩ :: others) free) (taken : pool.popFree = some (slot, popped))
    (hand : phase.hand = []) (fresh : phase.fresh = []) (counted : phase.counted = false) :
    ∃ rest, Good (popped.update i ⟨rounds, .countAllocated slot⟩) (⟨rounds, .countAllocated slot⟩ :: others) rest := by
  obtain ⟨rest, -, after⟩ : ∃ rest, free = slot :: rest ∧
      Good popped (⟨rounds, .countAllocated slot⟩ :: others) rest := good.pop taken hand rfl fresh.symm counted.symm
  exact ⟨rest, after.update i rfl⟩

theorem Good.push {slot : Nat} (good : Good pool (call :: others) free) (before : call.hand = [slot])
    (after : later.hand = []) (fresh : later.fresh = call.fresh) (counted : later.counted = call.counted) :
    Good (pool.pushFree slot) (later :: others) (slot :: free) := by
  have inHand : (pool.owned ++ (call :: others).flatMap Call.hand).Perm
      (slot :: (pool.owned ++ (later :: others).flatMap Call.hand)) := by
    rw [List.flatMap_cons, List.flatMap_cons, before, after]
    exact List.perm_middle
  have sound := (good.sound.perm inHand).push
  obtain ⟨distinct, known⟩ := good.chunks_kept fresh
  refine ⟨sound.chain, sound.cells, distinct, known, sound.size, ?_⟩
  rw [counted_same counted]
  exact good.counted

theorem Good.make (good : Good pool (call :: others) free) (hand : later.hand = call.hand) (before : call.fresh = [])
    (after : later.fresh = [pool.made]) (counted : later.counted = call.counted) :
    Good { pool with made := pool.made + 1 } (later :: others) free := by
  have known := good.made
  have nodup := good.fresh
  rw [List.flatMap_cons, before, List.nil_append] at known nodup
  refine ⟨good.chain, ?_, ?_, ?_, good.size, ?_⟩
  · rw [hands_same hand]
    exact good.cells
  · rw [List.flatMap_cons, after]
    apply List.perm_middle.symm.nodup_iff.mp
    refine List.nodup_cons.mpr ⟨?_, nodup⟩
    intro member
    exact Nat.lt_irrefl _ (known pool.made member)
  · intro chunk member
    rw [List.flatMap_cons, after] at member
    rcases List.mem_cons.mp (List.perm_middle.mem_iff.mp member) with rfl | old
    · exact Nat.lt_succ_self _
    · exact Nat.lt_succ_of_lt (known chunk old)
  · rw [counted_same counted]
    exact good.counted

theorem Good.splice {chunk : Nat} (good : Good pool (call :: others) free) (hand : later.hand = call.hand)
    (before : call.fresh = [chunk]) (after : later.fresh = []) (counted : later.counted = call.counted) :
    Good (pool.splice chunk) (later :: others) (slots chunk ++ free) := by
  have fresh := good.fresh
  have known := good.made
  rw [List.flatMap_cons, before] at fresh known
  have absent : chunk ∉ pool.chunks := fun member =>
    (List.nodup_append.mp fresh).2.2 chunk member chunk (by simp) rfl
  have sound := good.sound.splice absent (known chunk (by simp))
  have chunks : (pool.splice chunk).chunks ++ (later :: others).flatMap Call.fresh =
      pool.chunks ++ ([chunk] ++ others.flatMap Call.fresh) := by
    rw [List.flatMap_cons, after, List.nil_append, ← List.append_assoc]
    rfl
  refine ⟨sound.chain, ?_, ?_, ?_, sound.size, ?_⟩
  · rw [hands_same hand]
    exact sound.cells
  · rw [chunks]
    exact fresh
  · rw [chunks]
    exact known
  · rw [counted_same counted]
    exact good.counted

theorem Good.count (good : Good pool (call :: others) free) (hand : later.hand = call.hand)
    (fresh : later.fresh = call.fresh) (before : call.counted = false) (after : later.counted = true) :
    Good { pool with allocated := pool.allocated + 1 } (later :: others) free := by
  obtain ⟨distinct, known⟩ := good.chunks_kept fresh
  refine ⟨good.chain, ?_, distinct, known, good.size, ?_⟩
  · rw [hands_same hand]
    exact good.cells
  · have counted := good.counted
    rw [List.countP_cons, before] at counted
    rw [List.countP_cons, after, if_pos rfl, ← Nat.add_assoc]
    exact congrArg (· + 1) counted

theorem Good.uncount (good : Good pool (call :: others) free) (hand : later.hand = call.hand)
    (fresh : later.fresh = call.fresh) (before : call.counted = true) (after : later.counted = false) :
    Good { pool with allocated := pool.allocated - 1 } (later :: others) free := by
  obtain ⟨distinct, known⟩ := good.chunks_kept fresh
  refine ⟨good.chain, ?_, distinct, known, good.size, ?_⟩
  · rw [hands_same hand]
    exact good.cells
  · have counted := good.counted
    rw [List.countP_cons, before, if_pos rfl, ← Nat.add_assoc] at counted
    rw [List.countP_cons, after, counted]
    rfl

theorem Good.handOver {slot : Nat} (good : Good pool (call :: others) free) (i : Nat) (before : call.hand = [slot])
    (after : later.hand = []) (fresh : later.fresh = call.fresh) (counted : call.counted = true)
    (uncounted : later.counted = false) (passed : handedOver later = [slot]) :
    Good (pool.update i later) (later :: others) free := by
  rw [ObjectPool.update, passed]
  obtain ⟨distinct, known⟩ := good.chunks_kept fresh
  refine ⟨good.chain, ?_, distinct, known, good.size, ?_⟩
  · have cells := good.cells
    rw [List.flatMap_cons, before] at cells
    rw [List.flatMap_cons, after, List.nil_append]
    exact (List.perm_middle.symm.append_left free).trans cells
  · have total := good.counted
    rw [List.countP_cons, counted, if_pos rfl] at total
    simp only [List.countP_cons, uncounted, List.length_append, List.length_singleton]
    rw [total]
    simp only [Bool.false_eq_true, if_false]
    omega

theorem turn_good {rounds : Option Nat} {phase after : Phase} {succeeds : Bool} {turned : ObjectPool} (i : Nat)
    (good : Good pool (⟨rounds, phase⟩ :: others) free) (turns : pool.turn succeeds phase = some (turned, after)) :
    ∃ free', Good (turned.update i (resume rounds after)) (resume rounds after :: others) free' := by
  cases phase with
  | popping =>
      rcases pop_cases turns with ⟨-, rfl, rfl⟩ | ⟨slot, popped, rfl⟩
      · exact ⟨free, .update i (good.relabel rfl rfl rfl) rfl⟩
      · exact good.taken i popped rfl rfl rfl
  | making =>
      cases succeeds with
      | false =>
          cases turns
          exact ⟨free, .update i (good.relabel rfl rfl rfl) rfl⟩
      | true =>
          cases turns
          exact ⟨free, .update i (good.make rfl rfl rfl rfl) rfl⟩
  | splicing chunk =>
      cases turns
      exact ⟨slots chunk ++ free, .update i (good.splice rfl rfl rfl rfl) rfl⟩
  | popAgain =>
      rcases pop_cases turns with ⟨-, rfl, rfl⟩ | ⟨slot, popped, rfl⟩
      · exact ⟨free, .update i (good.relabel rfl rfl rfl) rfl⟩
      · exact good.taken i popped rfl rfl rfl
  | countAllocated slot =>
      cases turns
      exact ⟨free, .update i (good.count rfl rfl rfl rfl) rfl⟩
  | countCreated slot =>
      cases turns
      have same : Good { pool with totalCreated := pool.totalCreated + 1 } (⟨rounds, .countCreated slot⟩ :: others) free :=
        ⟨good.chain, good.cells, good.fresh, good.made, good.size, good.counted⟩
      exact ⟨free, .update i (same.relabel rfl rfl rfl) rfl⟩
  | constructing slot =>
      cases succeeds with
      | false =>
          cases turns
          exact ⟨free, .update i (good.relabel rfl rfl rfl) rfl⟩
      | true =>
          cases turns
          exact ⟨free, .update i (good.relabel rfl rfl rfl) rfl⟩
  | pushBack slot =>
      cases turns
      exact ⟨slot :: free, .update i (good.push rfl rfl rfl rfl) rfl⟩
  | uncount =>
      cases turns
      exact ⟨free, .update i (good.uncount rfl rfl rfl rfl) rfl⟩
  | creating slot =>
      cases turns
      cases rounds with
      | none => exact ⟨free, good.handOver i rfl rfl rfl rfl rfl rfl⟩
      | some n => exact ⟨free, .update i (good.relabel rfl rfl rfl) rfl⟩
  | destroying slot =>
      cases turns
      exact ⟨free, .update i (good.relabel rfl rfl rfl) rfl⟩
  | pushing slot =>
      cases turns
      exact ⟨slot :: free, .update i (good.push rfl rfl rfl rfl) rfl⟩
  | uncounting =>
      cases turns
      rcases rounds with _ | _ | n
      · exact ⟨free, .update i (good.uncount rfl rfl rfl rfl) rfl⟩
      · exact ⟨free, .update i (good.uncount rfl rfl rfl rfl) rfl⟩
      · exact ⟨free, .update i (good.uncount rfl rfl rfl rfl) rfl⟩
  | returned outcome => cases turns

end Turns

/-! ## Whole runs -/

theorem advance_cases {pool next : ObjectPool} {i : Nat} {succeeds : Bool}
    (stepped : pool.step (.advance i succeeds) = some next) :
    ∃ call turned phase, pool.calls[i]? = some call ∧ pool.turn succeeds call.phase = some (turned, phase) ∧
      next = turned.update i (resume call.rounds phase) := by
  obtain ⟨call, here, rest⟩ := Option.bind_eq_some_iff.mp stepped
  obtain ⟨⟨turned, phase⟩, turns, rfl⟩ := Option.map_eq_some_iff.mp rest
  exact ⟨call, turned, phase, here, turns, rfl⟩

theorem turn_calls {pool turned : ObjectPool} {succeeds : Bool} {phase after : Phase}
    (turns : pool.turn succeeds phase = some (turned, after)) : turned.calls = pool.calls := by
  cases phase with
  | popping | popAgain =>
      rcases pop_cases turns with ⟨-, rfl, -⟩ | ⟨slot, popped, -⟩
      · rfl
      · rw [popFree_some popped]
  | making => cases succeeds <;> cases turns <;> rfl
  | returned outcome => cases turns
  | _ =>
      cases turns
      rfl

theorem perm_focus {calls : List Call} {i : Nat} {call : Call} (here : calls[i]? = some call) :
    calls.Perm (call :: calls.eraseIdx i) := by
  obtain ⟨inside, rfl⟩ := List.getElem?_eq_some_iff.mp here
  exact (List.getElem_cons_eraseIdx_perm inside).symm

theorem set_perm_focus {calls : List Call} {i : Nat} {call : Call} (here : calls[i]? = some call) (later : Call) :
    (calls.set i later).Perm (later :: calls.eraseIdx i) := by
  obtain ⟨inside, -⟩ := List.getElem?_eq_some_iff.mp here
  exact List.set_perm_cons_eraseIdx inside later

theorem Good.start {pool : ObjectPool} {calls : List Call} {free : List Nat} {call : Call} (good : Good pool calls free)
    (hand : call.hand = []) (fresh : call.fresh = []) (counted : call.counted = false) :
    Good (pool.start call) (call :: calls) free := by
  refine ⟨good.chain, ?_, ?_, ?_, good.size, ?_⟩
  · rw [List.flatMap_cons, hand]
    exact good.cells
  · rw [List.flatMap_cons, fresh]
    exact good.fresh
  · rw [List.flatMap_cons, fresh]
    exact good.made
  · rw [List.countP_cons, counted]
    exact good.counted

def giveBack (pool : ObjectPool) (slot : Nat) : ObjectPool :=
  { pool.start ⟨none, .destroying slot⟩ with owned := pool.owned.erase slot }

theorem giveBack_good {pool : ObjectPool} {calls : List Call} {free : List Nat} {slot : Nat} (good : Good pool calls free)
    (held : slot ∈ pool.owned) : Good (pool.giveBack slot) (⟨none, .destroying slot⟩ :: calls) free := by
  have owned : (pool.giveBack slot).owned = pool.owned.erase slot := rfl
  refine ⟨good.chain, ?_, good.fresh, good.made, good.size, ?_⟩
  · have moved : (pool.owned.erase slot ++ slot :: calls.flatMap Call.hand).Perm
        (pool.owned ++ calls.flatMap Call.hand) :=
      List.perm_middle.trans ((List.perm_cons_erase held).symm.append_right _)
    exact (moved.append_left free).trans good.cells
  · have length := List.length_erase_of_mem held
    have positive := List.length_pos_of_mem held
    have counted := good.counted
    have busy : Call.counted ⟨none, .destroying slot⟩ = true := rfl
    have same : (pool.giveBack slot).allocated = pool.allocated := rfl
    rw [owned, List.countP_cons, length, if_pos busy, same]
    omega

/-- Calls that stand still beside those of the pool do not matter. -/
theorem step_good_beside {pool next : ObjectPool} {action : Action} {others : List Call} {free : List Nat}
    (stepped : pool.step action = some next) (good : Good pool (pool.calls ++ others) free) :
    ∃ free', Good next (next.calls ++ others) free' := by
  have started (call : Call) : (call :: (pool.calls ++ others)).Perm (pool.calls ++ [call] ++ others) := by
    rw [List.append_assoc]
    exact List.perm_middle.symm
  cases action with
  | allocate =>
      cases stepped
      exact ⟨free, (good.start rfl rfl rfl).perm (started _)⟩
  | deallocate slot =>
      simp only [step, Option.ite_none_right_eq_some, Option.some.injEq] at stepped
      obtain ⟨held, rfl⟩ := stepped
      exact ⟨free, (giveBack_good good held).perm (started _)⟩
  | preAllocate count =>
      cases count with
      | zero =>
          cases stepped
          exact ⟨free, (good.start rfl rfl rfl).perm (started _)⟩
      | succ n =>
          cases stepped
          exact ⟨free, (good.start rfl rfl rfl).perm (started _)⟩
  | advance i succeeds =>
      obtain ⟨call, turned, phase, here, turns, rfl⟩ := advance_cases stepped
      obtain ⟨free', after⟩ := turn_good i (good.perm ((perm_focus here).append_right others)) turns
      refine ⟨free', after.perm ?_⟩
      rw [ObjectPool.update, turn_calls turns]
      exact ((set_perm_focus here _).append_right others).symm

theorem step_good {pool next : ObjectPool} {action : Action} {free : List Nat} (stepped : pool.step action = some next)
    (good : Good pool pool.calls free) : ∃ free', Good next next.calls free' := by
  rw [← List.append_nil pool.calls] at good
  obtain ⟨free', after⟩ := step_good_beside stepped good
  rw [List.append_nil] at after
  exact ⟨free', after⟩

theorem initial_good : Good {} [] [] :=
  ⟨rfl, .nil, .nil, fun _ member => absurd member List.not_mem_nil, rfl, rfl⟩

theorem exec_good {pool : ObjectPool} {actions : List Action} (ran : exec step {} actions = some pool) :
    ∃ free, Good pool pool.calls free := by
  apply exec_invariant (P := fun pool => ∃ free, Good pool pool.calls free) _ ran ⟨[], initial_good⟩
  rintro before action after stepped ⟨free, good⟩
  exact step_good stepped good

theorem pool_never_shares_a_slot (actions : List Action) (pool : ObjectPool) (ran : exec step {} actions = some pool) :
    (∃ free, Chain pool.next pool.freeList free ∧
      (free ++ (pool.owned ++ pool.calls.flatMap Call.hand)).Nodup ∧
      pool.freeListSize = free.length ∧
      free.length + pool.owned.length + (pool.calls.flatMap Call.hand).length = 64 * pool.chunks.length) ∧
    ((∀ call ∈ pool.calls, ∃ outcome, call.phase = .returned outcome) → pool.allocated = pool.owned.length) := by
  obtain ⟨free, good⟩ := exec_good ran
  refine ⟨⟨free, good.chain, good.nodup, good.size, ?_⟩, ?_⟩
  · have length := good.cells.length_eq
    rw [chunks_length, List.length_append, List.length_append, ← Nat.add_assoc] at length
    exact length
  · intro idle
    have uncounted : pool.calls.countP Call.counted = 0 := by
      rw [List.countP_eq_zero]
      intro call member
      obtain ⟨outcome, returned⟩ := idle call member
      rw [Call.counted, returned]
      exact Bool.false_ne_true
    rw [good.counted, uncounted, Nat.add_zero]

-- Two threads find the pool empty and each splices a chunk; `T()` throws in the second one. A third takes the slot
-- that it pushes back before it has been uncounted, and then the first object is given back.
def bothGrow : List Action :=
  [.allocate, .allocate, .advance 0 true, .advance 1 true, .advance 0 true, .advance 1 true, .advance 1 true,
    .advance 0 true, .advance 1 true, .advance 0 true, .advance 0 true, .advance 1 true, .advance 1 true,
    .advance 1 false, .advance 0 true, .advance 0 true, .advance 1 true, .advance 0 true, .allocate, .advance 2 true,
    .advance 2 true, .advance 1 true, .advance 2 true, .advance 2 true, .advance 2 true, .deallocate 2,
    .advance 3 true, .advance 3 true, .advance 3 true]

theorem one_object_owned :
    ∃ pool, exec step {} bothGrow = some pool ∧ pool.owned = [1] ∧
      pool.calls.map Call.phase = [.returned (.object 2), .returned .threw, .returned (.object 1), .returned .done] ∧
      pool.allocated = 1 ∧ pool.freeListSize = 127 ∧
      ∃ free, Chain pool.next pool.freeList free ∧ (free ++ [1]).Nodup ∧ free.length = 127 := by
  obtain ⟨pool, ran, ended⟩ := Option.map_eq_some_iff.mp (show
    (exec step {} bothGrow).map (fun pool => (pool.owned, pool.calls, pool.chunks)) =
      some ([1], [⟨none, .returned (.object 2)⟩, ⟨none, .returned .threw⟩, ⟨none, .returned (.object 1)⟩,
        ⟨none, .returned .done⟩], [1, 0]) by decide)
  simp only [Prod.mk.injEq] at ended
  obtain ⟨owned, calls, chunks⟩ := ended
  obtain ⟨⟨free, chain, apart, size, total⟩, counted⟩ := pool_never_shares_a_slot bothGrow pool ran
  have idle : ∀ call ∈ pool.calls, ∃ outcome, call.phase = .returned outcome := by
    rw [calls]
    simp
  have nothing : pool.calls.flatMap Call.hand = [] := by
    rw [calls]
    rfl
  rw [nothing, owned, chunks] at total
  rw [nothing, owned] at apart
  have slots : free.length = 127 := by simpa using total
  refine ⟨pool, ran, owned, by rw [calls]; rfl, ?_, size.trans slots, free, chain, apart, slots⟩
  rw [counted idle, owned]
  rfl

end ObjectPool

end ServerFramework.Base
