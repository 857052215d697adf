import ServerFramework.Proof.Business.CleanupTimeout

namespace ServerFramework.Business
open Library

namespace SessionMgr

def Stale (now timeout : UInt64) (ctx : ConnectionContext) : Prop :=
  ctx.isAlive = true ∧ ctx.lastMsgTime.toNat + timeout.toNat < now.toNat

instance (now timeout : UInt64) : DecidablePred (Stale now timeout) := fun _ => inferInstanceAs (Decidable (_ ∧ _))

/-- The sum does not fit in 64 bits, and what is left of it lies before `now`. -/
def Wraps (now timeout : UInt64) (ctx : ConnectionContext) : Prop :=
  ctx.isAlive = true ∧ 2 ^ 64 ≤ ctx.lastMsgTime.toNat + timeout.toNat ∧
    ctx.lastMsgTime.toNat + timeout.toNat < 2 ^ 64 + now.toNat

/-- A `cleanup_timeout` with nobody else's step between its own; `order` is how it goes through the table. -/
def cleanupTimeout (mgr : SessionMgr) (now timeout : UInt64) (order : List Int) : Option SessionMgr :=
  exec step mgr (.scan now timeout order ::
    (List.replicate order.length (.evict mgr.cleanups.length) ++ [.finish mgr.cleanups.length]))

structure RemovesExactly (now timeout : UInt64) (mgr next : SessionMgr) : Prop where
  table : ∀ sid, next.get sid = (mgr.get sid).filter fun ctx => ¬ Stale now timeout ctx
  returned : ∃ call n, next.cleanups = mgr.cleanups ++ [call] ∧ call.returned = some n ∧ next.count + n = mgr.count

/-! ## The removals, one after the other -/

structure Evicted (mgr next : SessionMgr) (sids : List Int) : Prop where
  table : ∀ sid, next.get sid = if sid ∈ sids then none else mgr.get sid
  count : next.count + sids.length = mgr.count

theorem count_remove {mgr : SessionMgr} {sid : Int} (present : sid ∈ mgr.sessions) :
    (mgr.remove sid).count + 1 = mgr.count := by
  have keys : (mgr.sessions.erase sid).keys = mgr.sessions.keys.erase sid := AList.keys_erase sid mgr.sessions
  have length := congrArg List.length keys
  have positive : 0 < mgr.sessions.keys.length := List.length_pos_of_mem present
  rw [List.length_erase_of_mem present] at length
  simp only [AList.keys, List.keys, List.length_map] at length positive
  change (mgr.sessions.erase sid).entries.length + 1 = mgr.sessions.entries.length
  omega

theorem mem_iff_get (mgr : SessionMgr) (sid : Int) : sid ∈ mgr.sessions ↔ ∃ ctx, mgr.get sid = some ctx := by
  rw [← AList.lookup_isSome, Option.isSome_iff_exists]
  rfl

theorem exec_evicts {mgr : SessionMgr} {i : Nat} {call : Cleanup} (here : mgr.cleanups[i]? = some call)
    (nodup : call.toRemove.Nodup) (present : ∀ sid ∈ call.toRemove, sid ∈ mgr.sessions) :
    ∃ next last, exec step mgr (List.replicate call.toRemove.length (.evict i)) = some next ∧
      next.cleanups = mgr.cleanups.set i last ∧ last.toRemove = [] ∧ last.returned = call.returned ∧
      last.count = call.count + call.toRemove.length ∧ Evicted mgr next call.toRemove := by
  generalize pending : call.toRemove = order at nodup present
  induction order generalizing mgr call with
  | nil =>
      refine ⟨mgr, call, rfl, ?_, pending, rfl, rfl, by simp, rfl⟩
      obtain ⟨inside, same⟩ := List.getElem?_eq_some_iff.mp here
      rw [← same, List.set_getElem_self inside]
  | cons sid rest ih =>
      obtain ⟨head, nodup⟩ := List.nodup_cons.mp nodup
      let called : Cleanup := { call with
        toRemove := rest, count := call.count + 1, erased := call.erased ++ (mgr.get sid).toList }
      have stepped : mgr.step (.evict i) = some (mgr.evict i call sid rest) := by simp [step, here, pending]
      have inside : i < mgr.cleanups.length := (List.getElem?_eq_some_iff.mp here).1
      have there : (mgr.evict i call sid rest).cleanups[i]? = some called := by simp [evict, called, inside]
      have others : ∀ k ∈ rest, k ∈ (mgr.evict i call sid rest).sessions := by
        intro k member
        refine AList.mem_erase.mpr ⟨?_, present k (List.mem_cons_of_mem _ member)⟩
        rintro rfl
        exact head member
      obtain ⟨next, last, ran, cleanups, done, returned, count, evicted⟩ := ih there rfl nodup others
      have table : ∀ k, (mgr.evict i call sid rest).get k = if k = sid then none else mgr.get k :=
        fun k => mgr.get_remove k sid
      have fewer : (mgr.evict i call sid rest).count + 1 = mgr.count := count_remove (present sid (by simp))
      refine ⟨next, last, exec_cons.mpr ⟨_, stepped, ran⟩, ?_, done, returned, ?_, ?_, ?_⟩
      · rw [cleanups, evict, List.set_set]
      · have one : called.count = call.count + 1 := rfl
        rw [count, one, List.length_cons]
        omega
      · intro k
        rw [evicted.table, table]
        by_cases first : k = sid
        · simp [first]
        · simp [first]
      · have behind := evicted.count
        rw [List.length_cons]
        omega

theorem cleanupTimeout_spec (mgr : SessionMgr) {now timeout : UInt64} {order : List Int}
    (iterates : order.Perm (mgr.timedOut now timeout)) :
    ∃ next call n, mgr.cleanupTimeout now timeout order = some next ∧ next.cleanups = mgr.cleanups ++ [call] ∧
      call.returned = some n ∧ n = order.length ∧ Evicted mgr next order := by
  let call : Cleanup := { now := now, timeout := timeout, toRemove := order }
  have here : (mgr.beginCleanup now timeout order).cleanups[mgr.cleanups.length]? = some call := by
    simp [beginCleanup, call]
  have nodup : call.toRemove.Nodup := iterates.nodup_iff.mpr (mgr.timedOut_nodup now timeout)
  have present : ∀ sid ∈ call.toRemove, sid ∈ mgr.sessions := by
    intro sid member
    obtain ⟨ctx, found, -⟩ := mem_timedOut (iterates.mem_iff.mp member)
    exact (mgr.mem_iff_get sid).mpr ⟨ctx, found⟩
  obtain ⟨next, last, ran, cleanups, done, returned, count, evicted⟩ := exec_evicts here nodup present
  have recorded : next.cleanups = mgr.cleanups ++ [last] := by
    rw [cleanups, beginCleanup]
    simp
  have stepped : mgr.step (.scan now timeout order) = some (mgr.beginCleanup now timeout order) := if_pos iterates
  have finished : next.step (.finish mgr.cleanups.length) = some (next.endCleanup mgr.cleanups.length last) := by
    simp [step, recorded, done, returned, call]
  refine ⟨next.endCleanup mgr.cleanups.length last, { last with returned := some last.count }, last.count, ?_, ?_, rfl, ?_,
    evicted.table, evicted.count⟩
  · rw [cleanupTimeout]
    exact exec_cons.mpr ⟨_, stepped, exec_snoc.mpr ⟨next, ran, finished⟩⟩
  · simp [endCleanup, recorded]
  · rw [count, Nat.zero_add]

/-! ## Which sessions are found -/

theorem mem_timedOut_iff {mgr : SessionMgr} {now timeout : UInt64} {sid : Int} {ctx : ConnectionContext}
    (found : mgr.get sid = some ctx) :
    sid ∈ mgr.timedOut now timeout ↔ ctx.isAlive = true ∧ ctx.lastMsgTime + timeout < now := by
  constructor
  · intro member
    obtain ⟨⟨k, other⟩, kept, rfl⟩ := List.mem_map.mp member
    obtain ⟨among, late⟩ := List.mem_filter.mp kept
    have same := (mgr.get_iff_entry k other).mpr among
    rw [found] at same
    cases same
    simpa using late
  · intro late
    refine List.mem_map.mpr ⟨⟨sid, ctx⟩, List.mem_filter.mpr ⟨(mgr.get_iff_entry sid ctx).mp found, ?_⟩, rfl⟩
    simpa using late

theorem late_iff (now timeout : UInt64) (ctx : ConnectionContext) :
    (ctx.isAlive = true ∧ ctx.lastMsgTime + timeout < now) ↔ Stale now timeout ctx ∨ Wraps now timeout ctx := by
  have last := ctx.lastMsgTime.toNat_lt
  have time := timeout.toNat_lt
  have clock := now.toNat_lt
  rw [UInt64.lt_iff_toNat_lt, UInt64.toNat_add, Stale, Wraps]
  rcases Nat.lt_or_ge (ctx.lastMsgTime.toNat + timeout.toNat) (2 ^ 64) with small | large
  · rw [Nat.mod_eq_of_lt small]
    constructor
    · exact Or.inl
    · rintro (stale | wraps)
      · exact stale
      · omega
  · rw [Nat.mod_eq_sub_mod large, Nat.mod_eq_of_lt (by omega)]
    constructor
    · rintro ⟨alive, before⟩
      exact Or.inr ⟨alive, large, by omega⟩
    · rintro (stale | wraps)
      · omega
      · exact ⟨wraps.1, by omega⟩

theorem Wraps.not_stale {now timeout : UInt64} {ctx : ConnectionContext} (wraps : Wraps now timeout ctx) :
    ¬ Stale now timeout ctx := by
  rintro ⟨-, before⟩
  have clock := now.toNat_lt
  have large := wraps.2.1
  omega

theorem cleanup_exact_iff (mgr : SessionMgr) (now timeout : UInt64) (order : List Int)
    (iterates : order.Perm (mgr.timedOut now timeout)) :
    ∃ next, mgr.cleanupTimeout now timeout order = some next ∧
      (RemovesExactly now timeout mgr next ↔ ∀ sid ctx, mgr.get sid = some ctx → ¬ Wraps now timeout ctx) := by
  obtain ⟨next, call, n, ran, recorded, returned, length, evicted⟩ := mgr.cleanupTimeout_spec iterates
  have member : ∀ sid ctx, mgr.get sid = some ctx →
      (sid ∈ order ↔ Stale now timeout ctx ∨ Wraps now timeout ctx) := by
    intro sid ctx found
    rw [iterates.mem_iff, mem_timedOut_iff found, late_iff]
  refine ⟨next, ran, ?_, ?_⟩
  · intro exact sid ctx found wraps
    have gone := evicted.table sid
    rw [if_pos ((member sid ctx found).mpr (Or.inr wraps)), exact.table, found] at gone
    simp [wraps.not_stale] at gone
  · intro never
    refine ⟨?_, call, n, recorded, returned, by rw [length]; exact evicted.count⟩
    intro sid
    rw [evicted.table]
    cases found : mgr.get sid with
    | none => simp
    | some ctx =>
        have wraps := never sid ctx found
        by_cases stale : Stale now timeout ctx
        · rw [if_pos ((member sid ctx found).mpr (Or.inl stale))]
          simp [Option.filter, stale]
        · rw [if_neg fun removed => ((member sid ctx found).mp removed).elim stale wraps]
          simp [Option.filter, stale]

def onlySession : SessionMgr := ({} : SessionMgr).add 10 "192.168.1.1" 12345 1

theorem cleanup_exact_onlySession :
    [1].Perm (onlySession.timedOut 40000 30000) ∧
    ∃ next, onlySession.cleanupTimeout 40000 30000 [1] = some next ∧ RemovesExactly 40000 30000 onlySession next := by
  obtain ⟨next, ran, exact⟩ := cleanup_exact_iff onlySession 40000 30000 [1] (by decide)
  refine ⟨by decide, next, ran, exact.mpr ?_⟩
  intro sid ctx found
  rw [onlySession, get_add] at found
  split at found
  · cases found
    rintro ⟨-, large, -⟩
    exact absurd large (by decide)
  · cases found

/-- With the largest timeout there is, a session is removed four milliseconds after its last message. -/
theorem largest_timeout_evicts :
    exec step {} [.add 10 "192.168.1.1" 12345 1] = some onlySession ∧
    ∃ next, onlySession.cleanupTimeout 5 0xFFFFFFFFFFFFFFFF [1] = some next ∧
      (∃ ctx, onlySession.get 1 = some ctx ∧ ¬ Stale 5 0xFFFFFFFFFFFFFFFF ctx) ∧ next.get 1 = none ∧
      ¬ RemovesExactly 5 0xFFFFFFFFFFFFFFFF onlySession next := by
  have iterates : [1].Perm (onlySession.timedOut 5 0xFFFFFFFFFFFFFFFF) := by decide
  have here : onlySession.get 1 = some (newContext 1 10 "192.168.1.1" 12345 1) := by decide
  have fresh : ¬ Stale 5 0xFFFFFFFFFFFFFFFF (newContext 1 10 "192.168.1.1" 12345 1) := by decide
  obtain ⟨next, -, -, ran, -, -, -, evicted⟩ := onlySession.cleanupTimeout_spec iterates
  have gone : next.get 1 = none := by rw [evicted.table, if_pos (by simp)]
  refine ⟨rfl, next, ran, ⟨_, here, fresh⟩, gone, ?_⟩
  intro exact
  have kept := (exact.table 1).symm
  rw [gone, here] at kept
  simp [fresh] at kept

end SessionMgr

end ServerFramework.Business
