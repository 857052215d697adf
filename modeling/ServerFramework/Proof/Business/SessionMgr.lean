import ServerFramework.Business.SessionMgr
import ServerFramework.Library.Table
import Mathlib.Data.Set.Card

namespace ServerFramework.Business
open Library

namespace SessionMgr

/-! ## Looking a session up -/

theorem get_add (mgr : SessionMgr) (socketFd : Int) (ip : String) (port : Int) (tick : UInt64) (sid : Int) :
    (mgr.add socketFd ip port tick).get sid =
      if sid = mgr.nextSid then some (newContext mgr.nextSid socketFd ip port tick) else mgr.get sid :=
  lookup_insert ..

theorem get_remove (mgr : SessionMgr) (sid k : Int) :
    (mgr.remove k).get sid = if sid = k then none else mgr.get sid :=
  lookup_erase ..

theorem get_modify (mgr : SessionMgr) (sid k : Int) (f : ConnectionContext → ConnectionContext) :
    (mgr.modify k f).get sid = if sid = k then (mgr.get sid).map f else mgr.get sid := by
  cases found : mgr.get k with
  | none =>
      by_cases same : sid = k
      · subst same
        simp [modify, found]
      · simp [modify, found, same]
  | some ctx =>
      have replaced : (mgr.modify k f).get sid = (mgr.sessions.replace k (f ctx)).lookup sid := by
        simp only [modify, found]
        rfl
      rw [replaced, lookup_replace]
      by_cases same : sid = k
      · subst same
        rw [if_pos rfl, if_pos rfl, found]
        exact congrArg (Option.map fun _ => f ctx) found
      · rw [if_neg same, if_neg same]
        rfl

theorem modify_of_absent {mgr : SessionMgr} {sid : Int} (absent : mgr.get sid = none)
    (f : ConnectionContext → ConnectionContext) : mgr.modify sid f = mgr := by
  simp only [modify, absent]

theorem count_modify (mgr : SessionMgr) (sid : Int) (f : ConnectionContext → ConnectionContext) :
    (mgr.modify sid f).count = mgr.count := by
  cases found : mgr.get sid with
  | none => rw [modify_of_absent found]
  | some ctx =>
      simp only [modify, found, count]
      exact length_replace ..

theorem modify_eq (mgr : SessionMgr) (sid : Int) (f : ConnectionContext → ConnectionContext) :
    mgr.modify sid f = { mgr with sessions := (mgr.modify sid f).sessions } := by
  cases found : mgr.get sid with
  | none => rw [modify_of_absent found]
  | some ctx => simp only [modify, found]

/-! ## What a step can do -/

def Action.isAdd : Action → Bool
  | .add .. => true
  | _ => false

def Action.isHeartbeat (sid : Int) : Action → Bool
  | .heartbeat k _ => k == sid
  | _ => false

inductive Effect (mgr : SessionMgr) : Action → SessionMgr → Prop
  | shrink {action : Action} {sessions : AList fun _ : Int => ConnectionContext} {closed : List Int} {cleanups : List Cleanup}
      (adds : action.isAdd = false) (beats : ∀ sid, action.isHeartbeat sid = false)
      (sublist : sessions.entries.Sublist mgr.sessions.entries) :
      Effect mgr action { mgr with sessions := sessions, closed := closed, cleanups := cleanups }
  | add (socketFd : Int) (ip : String) (port : Int) (tick : UInt64) (bounded : mgr.nextSid + 1 < 2 ^ 63) :
      Effect mgr (.add socketFd ip port tick) (mgr.add socketFd ip port tick)
  | heartbeat (sid : Int) (tick : UInt64) : Effect mgr (.heartbeat sid tick) (mgr.heartbeat sid tick)
  | markDead (sid : Int) : Effect mgr (.markDead sid) (mgr.markDead sid)

theorem erase_sublist (mgr : SessionMgr) (sid : Int) :
    (mgr.sessions.erase sid).entries.Sublist mgr.sessions.entries := List.kerase_sublist ..

theorem kick_effect (mgr : SessionMgr) (sid : Int) : Effect mgr (.kick sid) (mgr.kick sid).2 := by
  cases found : mgr.get sid with
  | none =>
      simp only [kick, found]
      exact .shrink rfl (fun _ => rfl) (.refl _)
  | some ctx =>
      simp only [kick, found]
      exact .shrink rfl (fun _ => rfl) (mgr.erase_sublist sid)

theorem step_evict {mgr next : SessionMgr} {i : Nat} (stepped : mgr.step (.evict i) = some next) :
    ∃ call sid rest, mgr.cleanups[i]? = some call ∧ call.toRemove = sid :: rest ∧
      next = mgr.evict i call sid rest := by
  obtain ⟨call, here, rest⟩ := Option.bind_eq_some_iff.mp stepped
  cases pending : call.toRemove with
  | nil => simp [pending] at rest
  | cons sid others =>
      simp only [pending, Option.some.injEq] at rest
      exact ⟨call, sid, others, here, pending, rest.symm⟩

theorem step_finish {mgr next : SessionMgr} {i : Nat} (stepped : mgr.step (.finish i) = some next) :
    ∃ call, mgr.cleanups[i]? = some call ∧ call.toRemove = [] ∧ call.returned = none ∧
      next = mgr.endCleanup i call := by
  obtain ⟨call, here, rest⟩ := Option.bind_eq_some_iff.mp stepped
  simp only [Option.ite_none_right_eq_some, Option.some.injEq] at rest
  exact ⟨call, here, rest.1.1, rest.1.2, rest.2.symm⟩

theorem step_scan {mgr next : SessionMgr} {now timeout : UInt64} {order : List Int}
    (stepped : mgr.step (.scan now timeout order) = some next) :
    order.Perm (mgr.timedOut now timeout) ∧ next = mgr.beginCleanup now timeout order := by
  simp only [step, Option.ite_none_right_eq_some, Option.some.injEq] at stepped
  exact ⟨stepped.1, stepped.2.symm⟩

theorem step_effect {mgr next : SessionMgr} {action : Action} (stepped : mgr.step action = some next) :
    Effect mgr action next := by
  cases action with
  | add socketFd ip port tick =>
      simp only [step, Option.ite_none_right_eq_some, Option.some.injEq] at stepped
      obtain ⟨bounded, rfl⟩ := stepped
      exact .add socketFd ip port tick bounded
  | remove sid =>
      cases stepped
      exact .shrink rfl (fun _ => rfl) (mgr.erase_sublist sid)
  | heartbeat sid tick =>
      cases stepped
      exact .heartbeat sid tick
  | kick sid =>
      cases stepped
      exact mgr.kick_effect sid
  | markDead sid =>
      cases stepped
      exact .markDead sid
  | shutdown =>
      cases stepped
      exact .shrink rfl (fun _ => rfl) (List.nil_sublist _)
  | scan now timeout order =>
      obtain ⟨-, rfl⟩ := step_scan stepped
      exact .shrink rfl (fun _ => rfl) (.refl _)
  | evict i =>
      obtain ⟨call, sid, rest, -, -, rfl⟩ := step_evict stepped
      exact .shrink rfl (fun _ => rfl) (mgr.erase_sublist sid)
  | finish i =>
      obtain ⟨call, -, -, -, rfl⟩ := step_finish stepped
      exact .shrink rfl (fun _ => rfl) (.refl _)

/-! ## Bookkeeping -/

structure Registered (mgr : SessionMgr) (sid : Int) (ctx : ConnectionContext) : Prop where
  own : ctx.sessionId = sid
  lower : 1 ≤ sid
  upper : sid < mgr.nextSid

structure Consistent (mgr : SessionMgr) : Prop where
  registered : ∀ sid ctx, mgr.get sid = some ctx → Registered mgr sid ctx
  next : (mgr.totalCount : Int) = mgr.nextSid - 1
  count : mgr.count ≤ mgr.peakCount
  peak : mgr.peakCount ≤ mgr.totalCount

theorem initial_consistent : Consistent {} := by
  refine ⟨?_, rfl, Nat.le_refl 0, Nat.le_refl 0⟩
  intro sid ctx found
  cases found

theorem add_consistent {mgr : SessionMgr} (socketFd : Int) (ip : String) (port : Int) (tick : UInt64)
    (consistent : Consistent mgr) : Consistent (mgr.add socketFd ip port tick) := by
  have next := consistent.next
  have larger : (mgr.add socketFd ip port tick).count ≤ mgr.count + 1 := length_insert_le ..
  have few : mgr.count ≤ mgr.totalCount := consistent.count.trans consistent.peak
  constructor
  · intro sid ctx found
    rw [get_add] at found
    split at found
    · rename_i same
      cases found
      subst same
      exact ⟨rfl, by omega, Int.lt_succ _⟩
    · have before := consistent.registered sid ctx found
      exact ⟨before.own, before.lower, Int.lt_trans before.upper (Int.lt_succ _)⟩
  · have total : (mgr.add socketFd ip port tick).totalCount = mgr.totalCount + 1 := rfl
    have later : (mgr.add socketFd ip port tick).nextSid = mgr.nextSid + 1 := rfl
    rw [total, later, Int.natCast_add, next]
    omega
  · exact Nat.le_max_right ..
  · exact Nat.max_le.mpr ⟨consistent.peak.trans (Nat.le_succ _), larger.trans (Nat.succ_le_succ few)⟩

theorem modify_consistent {mgr : SessionMgr} {sid : Int} {f : ConnectionContext → ConnectionContext}
    (consistent : Consistent mgr) (own : ∀ ctx, (f ctx).sessionId = ctx.sessionId) : Consistent (mgr.modify sid f) := by
  have count := mgr.count_modify sid f
  have looked := mgr.get_modify (k := sid) (f := f)
  rw [modify_eq] at count looked ⊢
  refine ⟨?_, consistent.next, count.le.trans consistent.count, consistent.peak⟩
  intro k ctx found
  rw [looked] at found
  split at found
  · obtain ⟨old, present, rfl⟩ := Option.map_eq_some_iff.mp found
    have before := consistent.registered k old present
    exact ⟨(own old).trans before.own, before.lower, before.upper⟩
  · have before := consistent.registered k ctx found
    exact ⟨before.own, before.lower, before.upper⟩

theorem step_consistent {mgr next : SessionMgr} {action : Action} (stepped : mgr.step action = some next)
    (consistent : Consistent mgr) : Consistent next := by
  cases step_effect stepped with
  | shrink adds beats sublist =>
      refine ⟨?_, consistent.next, ?_, consistent.peak⟩
      · intro sid ctx found
        have before := consistent.registered sid ctx (lookup_of_sublist sublist found)
        exact ⟨before.own, before.lower, before.upper⟩
      · exact sublist.length_le.trans consistent.count
  | add socketFd ip port tick => exact add_consistent socketFd ip port tick consistent
  | heartbeat sid tick => exact modify_consistent consistent fun _ => rfl
  | markDead sid => exact modify_consistent consistent fun _ => rfl

theorem exec_consistent {mgr : SessionMgr} {actions : List Action} (ran : exec step {} actions = some mgr) :
    Consistent mgr :=
  exec_invariant (fun _ _ _ stepped consistent => step_consistent stepped consistent) ran initial_consistent

/-! ## The books against the calls -/

def adds (actions : List Action) : Nat := actions.countP Action.isAdd

def heartbeats (sid : Int) (actions : List Action) : Nat := actions.countP (Action.isHeartbeat sid)

/-- What a run does behind the `add` that returns `sid`, if the next one returns `next`. -/
def sinceAdd (next sid : Int) : List Action → List Action
  | [] => []
  | .add .. :: rest => if next = sid then rest else sinceAdd (next + 1) sid rest
  | _ :: rest => sinceAdd next sid rest

def firstIds (n : Nat) : List Int := (List.range n).map fun i : Nat => (i : Int) + 1

theorem firstIds_increasing (n : Nat) : (firstIds n).Pairwise (· < ·) := by
  rw [firstIds, List.pairwise_map]
  exact List.pairwise_lt_range.imp fun before => by omega

theorem sinceAdd_snoc (next sid : Int) (actions : List Action) (action : Action) (lower : next ≤ sid)
    (upper : sid < next + adds actions) :
    sinceAdd next sid (actions ++ [action]) = sinceAdd next sid actions ++ [action] := by
  induction actions generalizing next with
  | nil => simp [adds] at upper; omega
  | cons first rest ih =>
      cases first with
      | add socketFd ip port tick =>
          have more : adds (.add socketFd ip port tick :: rest) = adds rest + 1 := List.countP_cons_of_pos rfl
          rw [List.cons_append, sinceAdd, sinceAdd]
          split
          · rfl
          · exact ih (next + 1) (by omega) (by omega)
      | _ => exact ih next lower upper

theorem sinceAdd_new (next : Int) (actions : List Action) (socketFd : Int) (ip : String) (port : Int) (tick : UInt64) :
    sinceAdd next (next + adds actions) (actions ++ [.add socketFd ip port tick]) = [] := by
  induction actions generalizing next with
  | nil => simp [sinceAdd, adds]
  | cons first rest ih =>
      cases first with
      | add socketFd ip port tick =>
          have more : adds (.add socketFd ip port tick :: rest) = adds rest + 1 := List.countP_cons_of_pos rfl
          have last : next + (adds rest + 1 : Nat) = next + 1 + adds rest := by omega
          rw [more, last, List.cons_append, sinceAdd, if_neg (by omega)]
          exact ih (next + 1)
      | _ => exact ih next

structure Recorded (actions : List Action) (mgr : SessionMgr) : Prop where
  returned : mgr.returned = firstIds (adds actions)
  total : mgr.totalCount = adds actions
  beaten : ∀ sid ctx, mgr.get sid = some ctx →
    ctx.heartbeatCount = UInt32.ofNat (heartbeats sid (sinceAdd 1 sid actions))

theorem adds_snoc (actions : List Action) (action : Action) :
    adds (actions ++ [action]) = adds actions + if action.isAdd then 1 else 0 := by
  rw [adds, List.countP_append, List.countP_singleton]
  rfl

theorem heartbeats_snoc (sid : Int) (actions : List Action) (action : Action) :
    heartbeats sid (actions ++ [action]) = heartbeats sid actions + if action.isHeartbeat sid then 1 else 0 := by
  rw [heartbeats, List.countP_append, List.countP_singleton]
  rfl

theorem Recorded.number {mgr : SessionMgr} {done : List Action} (recorded : Recorded done mgr)
    (consistent : Consistent mgr) : mgr.nextSid = 1 + adds done := by
  have next := consistent.next
  rw [recorded.total] at next
  omega

theorem Recorded.beaten_snoc {mgr : SessionMgr} {done : List Action} {sid : Int} {old : ConnectionContext}
    (recorded : Recorded done mgr) (consistent : Consistent mgr) (present : mgr.get sid = some old) (action : Action) :
    UInt32.ofNat (heartbeats sid (sinceAdd 1 sid (done ++ [action]))) =
      old.heartbeatCount + if action.isHeartbeat sid then 1 else 0 := by
  have registered := consistent.registered sid old present
  have upper := registered.upper
  rw [recorded.number consistent] at upper
  rw [sinceAdd_snoc 1 sid done action registered.lower upper, heartbeats_snoc, UInt32.ofNat_add,
    recorded.beaten sid old present]
  split <;> rfl

/-- What a step that is no `add` has to show. -/
theorem Recorded.still {mgr next : SessionMgr} {done : List Action} {action : Action} (recorded : Recorded done mgr)
    (consistent : Consistent mgr) (plain : action.isAdd = false) (returned : next.returned = mgr.returned)
    (total : next.totalCount = mgr.totalCount)
    (beaten : ∀ sid ctx, next.get sid = some ctx → ∃ old, mgr.get sid = some old ∧
      ctx.heartbeatCount = old.heartbeatCount + if action.isHeartbeat sid then 1 else 0) :
    Recorded (done ++ [action]) next := by
  have same : adds (done ++ [action]) = adds done := by
    rw [adds_snoc, plain]
    rfl
  refine ⟨by rw [same, returned, recorded.returned], by rw [same, total, recorded.total], ?_⟩
  intro sid ctx found
  obtain ⟨old, present, count⟩ := beaten sid ctx found
  exact count.trans (recorded.beaten_snoc consistent present action).symm

theorem Recorded.add {mgr : SessionMgr} {done : List Action} (recorded : Recorded done mgr) (consistent : Consistent mgr)
    (socketFd : Int) (ip : String) (port : Int) (tick : UInt64) :
    Recorded (done ++ [.add socketFd ip port tick]) (mgr.add socketFd ip port tick) := by
  have more : adds (done ++ [.add socketFd ip port tick]) = adds done + 1 := adds_snoc ..
  have number := recorded.number consistent
  refine ⟨?_, ?_, ?_⟩
  · rw [more, firstIds, List.range_succ, List.map_append, List.map_singleton, Int.add_comm, ← number, ← firstIds,
      ← recorded.returned]
    rfl
  · rw [more, ← recorded.total]
    rfl
  · intro sid ctx found
    rw [get_add] at found
    split at found
    · rename_i same
      cases found
      rw [same, number, sinceAdd_new]
      rfl
    · rw [recorded.beaten_snoc consistent found]
      exact (UInt32.add_zero _).symm

theorem Recorded.heartbeat {mgr : SessionMgr} {done : List Action} (recorded : Recorded done mgr)
    (consistent : Consistent mgr) (sid : Int) (tick : UInt64) :
    Recorded (done ++ [.heartbeat sid tick]) (mgr.heartbeat sid tick) := by
  refine recorded.still consistent rfl (by rw [SessionMgr.heartbeat, modify_eq])
    (by rw [SessionMgr.heartbeat, modify_eq]) ?_
  intro k ctx found
  rw [SessionMgr.heartbeat, get_modify] at found
  split at found
  · rename_i same
    obtain ⟨old, present, rfl⟩ := Option.map_eq_some_iff.mp found
    exact ⟨old, present, by simp [Action.isHeartbeat, ConnectionContext.beat, same]⟩
  · rename_i other
    exact ⟨ctx, found, by simp [Action.isHeartbeat, Ne.symm other]⟩

theorem Recorded.markDead {mgr : SessionMgr} {done : List Action} (recorded : Recorded done mgr)
    (consistent : Consistent mgr) (sid : Int) : Recorded (done ++ [.markDead sid]) (mgr.markDead sid) := by
  refine recorded.still consistent rfl (by rw [SessionMgr.markDead, modify_eq])
    (by rw [SessionMgr.markDead, modify_eq]) ?_
  intro k ctx found
  rw [SessionMgr.markDead, get_modify] at found
  split at found
  · obtain ⟨old, present, rfl⟩ := Option.map_eq_some_iff.mp found
    exact ⟨old, present, (UInt32.add_zero _).symm⟩
  · exact ⟨ctx, found, (UInt32.add_zero _).symm⟩

theorem step_recorded {mgr next : SessionMgr} {done : List Action} {action : Action}
    (stepped : mgr.step action = some next) (consistent : Consistent mgr) (recorded : Recorded done mgr) :
    Recorded (done ++ [action]) next := by
  cases step_effect stepped with
  | shrink plain quiet sublist =>
      refine recorded.still consistent plain rfl rfl ?_
      intro sid ctx found
      exact ⟨ctx, lookup_of_sublist sublist found, by simp [quiet sid]⟩
  | add socketFd ip port tick => exact recorded.add consistent socketFd ip port tick
  | heartbeat sid tick => exact recorded.heartbeat consistent sid tick
  | markDead sid => exact recorded.markDead consistent sid

theorem exec_recorded {mgr : SessionMgr} {actions : List Action} (ran : exec step {} actions = some mgr) :
    Recorded actions mgr := by
  have both : Consistent mgr ∧ Recorded ([] ++ actions) mgr := by
    refine exec_history (P := fun done mgr => Consistent mgr ∧ Recorded done mgr) ?_ ran ⟨initial_consistent, rfl, rfl, ?_⟩
    · rintro done before action after stepped ⟨consistent, recorded⟩
      exact ⟨step_consistent stepped consistent, step_recorded stepped consistent recorded⟩
    · intro sid ctx found
      cases found
  exact both.2

/-! ## The peak -/

theorem step_peak {mgr next : SessionMgr} {action : Action} (stepped : mgr.step action = some next) :
    mgr.peakCount ≤ next.peakCount ∧ (next.peakCount = mgr.peakCount ∨ next.peakCount = next.count) := by
  cases step_effect stepped with
  | shrink => exact ⟨Nat.le_refl _, .inl rfl⟩
  | add socketFd ip port tick =>
      refine ⟨Nat.le_max_left .., ?_⟩
      rcases Nat.le_total mgr.peakCount (mgr.add socketFd ip port tick).count with lower | higher
      · exact .inr (Nat.max_eq_right lower)
      · exact .inl (Nat.max_eq_left higher)
  | heartbeat sid tick =>
      have same : (mgr.heartbeat sid tick).peakCount = mgr.peakCount := by rw [heartbeat, modify_eq]
      exact ⟨same.ge, .inl same⟩
  | markDead sid =>
      have same : (mgr.markDead sid).peakCount = mgr.peakCount := by rw [markDead, modify_eq]
      exact ⟨same.ge, .inl same⟩

theorem exec_peak_le {mgr last : SessionMgr} {actions : List Action} (ran : exec step mgr actions = some last) :
    mgr.peakCount ≤ last.peakCount := by
  apply exec_invariant (P := fun next => mgr.peakCount ≤ next.peakCount) _ ran (Nat.le_refl _)
  intro before action after stepped bound
  exact bound.trans (step_peak stepped).1

theorem exec_peak_reached {mgr last : SessionMgr} {actions : List Action} (ran : exec step mgr actions = some last) :
    last.peakCount = mgr.peakCount ∨
      ∃ n next, exec step mgr (actions.take n) = some next ∧ next.count = last.peakCount := by
  induction actions generalizing mgr with
  | nil =>
      cases ran
      exact .inl rfl
  | cons action actions ih =>
      obtain ⟨next, first, rest⟩ := exec_cons.mp ran
      rcases ih rest with same | ⟨n, later, reached, attained⟩
      · rcases (step_peak first).2 with kept | grown
        · exact .inl (same.trans kept)
        · exact .inr ⟨1, next, exec_cons.mpr ⟨next, first, rfl⟩, (same.trans grown).symm⟩
      · exact .inr ⟨n + 1, later, exec_cons.mpr ⟨next, first, reached⟩, attained⟩

theorem sessions_kept_in_order (actions : List Action) (mgr : SessionMgr) (ran : exec step {} actions = some mgr) :
    (∀ sid ctx, mgr.get sid = some ctx → ctx.sessionId = sid ∧ 1 ≤ sid ∧ sid < mgr.nextSid) ∧
    mgr.returned = firstIds (adds actions) ∧ mgr.returned.Pairwise (· < ·) ∧
    mgr.stats.totalCount = adds actions ∧ (mgr.stats.totalCount : Int) = mgr.nextSid - 1 ∧
    (∀ n earlier, exec step {} (actions.take n) = some earlier → earlier.count ≤ mgr.stats.peakCount) ∧
    (∃ n earlier, exec step {} (actions.take n) = some earlier ∧ earlier.count = mgr.stats.peakCount) ∧
    mgr.count ≤ mgr.stats.peakCount ∧ mgr.stats.peakCount ≤ mgr.stats.totalCount ∧
    ∀ sid ctx, mgr.get sid = some ctx → heartbeats sid (sinceAdd 1 sid actions) < 2 ^ 32 →
      ctx.heartbeatCount.toNat = heartbeats sid (sinceAdd 1 sid actions) := by
  have consistent := exec_consistent ran
  have recorded := exec_recorded ran
  refine ⟨?_, recorded.returned, ?_, recorded.total, consistent.next, ?_, ?_, consistent.count, consistent.peak, ?_⟩
  · intro sid ctx found
    have registered := consistent.registered sid ctx found
    exact ⟨registered.own, registered.lower, registered.upper⟩
  · rw [recorded.returned]
    exact firstIds_increasing _
  · intro n earlier reached
    have whole := ran
    rw [← List.take_append_drop n actions, exec_append, reached, Option.bind_some] at whole
    have before := exec_consistent reached
    exact before.count.trans (exec_peak_le whole)
  · rcases exec_peak_reached ran with none_added | reached
    · exact ⟨0, {}, rfl, none_added.symm⟩
    · exact reached
  · intro sid ctx found few
    rw [recorded.beaten sid ctx found]
    exact UInt32.toNat_ofNat_of_lt' few

theorem two_sessions_kept_in_order :
    ∃ mgr ctx, exec step {} [.add 10 "192.168.1.1" 12345 0, .add 11 "192.168.1.2" 12346 5, .heartbeat 1 7, .remove 2] =
        some mgr ∧ mgr.returned = [1, 2] ∧ mgr.stats.totalCount = 2 ∧ mgr.get 1 = some ctx ∧
      ctx.heartbeatCount.toNat = 1 := by
  obtain ⟨mgr, ran⟩ : ∃ mgr, exec step {} [.add 10 "192.168.1.1" 12345 0, .add 11 "192.168.1.2" 12346 5,
      .heartbeat 1 7, .remove 2] = some mgr := ⟨_, rfl⟩
  obtain ⟨ctx, found⟩ : ∃ ctx, mgr.get 1 = some ctx := by
    obtain rfl := Option.some.inj ran
    exact ⟨_, rfl⟩
  obtain ⟨-, returned, -, total, -, -, -, -, -, beaten⟩ := sessions_kept_in_order _ mgr ran
  exact ⟨mgr, ctx, ran, returned, total, found, beaten 1 ctx found (by decide)⟩

/-! ## Who is alive -/

def Alive (mgr : SessionMgr) (sid : Int) : Prop := ∃ ctx, mgr.get sid = some ctx ∧ ctx.isAlive = true

theorem sendTo_iff (mgr : SessionMgr) (sid : Int) : mgr.sendTo sid = true ↔ Alive mgr sid := by
  cases found : mgr.get sid with
  | none => simp [sendTo, Alive, found]
  | some ctx => simp [sendTo, Alive, found]

instance (mgr : SessionMgr) : DecidablePred (Alive mgr) := fun sid => decidable_of_iff _ (mgr.sendTo_iff sid)

structure OneNotion (mgr : SessionMgr) : Prop where
  broadcast : ∀ data sid, sid ∈ (mgr.broadcast data true).map Prod.fst ↔ Alive mgr sid
  sendTo : ∀ sid, mgr.sendTo sid = true ↔ Alive mgr sid
  sendToMultiple : ∀ sids, mgr.sendToMultiple sids = sids.countP fun sid => Alive mgr sid
  aliveSessions : ∀ sid, sid ∈ mgr.aliveSessions.map ConnectionContext.sessionId ↔ Alive mgr sid
  aliveCount : mgr.stats.aliveCount = {sid | Alive mgr sid}.ncard

def AllAlive (mgr : SessionMgr) : Prop := ∀ sid ctx, mgr.get sid = some ctx → ctx.isAlive = true

theorem get_iff_entry (mgr : SessionMgr) (sid : Int) (ctx : ConnectionContext) :
    mgr.get sid = some ctx ↔ ⟨sid, ctx⟩ ∈ mgr.sessions.entries := AList.mem_lookup_iff

theorem mem_broadcast (mgr : SessionMgr) (data : List UInt8) (sid : Int) :
    sid ∈ (mgr.broadcast data true).map Prod.fst ↔ Alive mgr sid := by
  simp only [broadcast, List.map_map, List.mem_map, List.mem_filter, Bool.and_true, Function.comp_apply]
  constructor
  · rintro ⟨⟨k, ctx⟩, ⟨member, alive⟩, rfl⟩
    exact ⟨ctx, (mgr.get_iff_entry k ctx).mpr member, alive⟩
  · rintro ⟨ctx, found, alive⟩
    exact ⟨⟨sid, ctx⟩, ⟨(mgr.get_iff_entry sid ctx).mp found, alive⟩, rfl⟩

theorem sendToMultiple_eq (mgr : SessionMgr) (sids : List Int) :
    mgr.sendToMultiple sids = sids.countP fun sid => Alive mgr sid := by
  have counted (sent : Nat) : sids.foldl (fun sent sid => if mgr.sendTo sid then sent + 1 else sent) sent =
      sent + sids.countP fun sid => Alive mgr sid := by
    induction sids generalizing sent with
    | nil => rfl
    | cons sid sids ih =>
        rw [List.foldl_cons, ih, List.countP_cons]
        by_cases alive : Alive mgr sid
        · rw [if_pos ((mgr.sendTo_iff sid).mpr alive), if_pos (decide_eq_true alive)]
          omega
        · rw [if_neg (mt (mgr.sendTo_iff sid).mp alive), if_neg (by simpa using alive)]
          rfl
  rw [sendToMultiple, counted, Nat.zero_add]

theorem mem_aliveSessions {mgr : SessionMgr} (consistent : Consistent mgr) (sid : Int) :
    sid ∈ mgr.aliveSessions.map ConnectionContext.sessionId ↔ ∃ ctx, mgr.get sid = some ctx := by
  simp only [aliveSessions, List.map_map, List.mem_map, Function.comp_apply]
  constructor
  · rintro ⟨⟨k, ctx⟩, member, rfl⟩
    have found := (mgr.get_iff_entry k ctx).mpr member
    have own := (consistent.registered k ctx found).own
    exact ⟨ctx, by rw [own]; exact found⟩
  · rintro ⟨ctx, found⟩
    exact ⟨⟨sid, ctx⟩, (mgr.get_iff_entry sid ctx).mp found, (consistent.registered sid ctx found).own⟩

theorem count_eq_ncard (mgr : SessionMgr) : mgr.count = {sid | ∃ ctx, mgr.get sid = some ctx}.ncard := by
  have present : {sid | ∃ ctx, mgr.get sid = some ctx} = (mgr.sessions.keys.toFinset : Set Int) := by
    ext sid
    rw [Finset.mem_coe, List.mem_toFinset, ← AList.mem_keys, ← AList.lookup_isSome, Option.isSome_iff_exists]
    rfl
  rw [present, Set.ncard_coe_finset, List.toFinset_card_of_nodup mgr.sessions.keys_nodup]
  exact (List.length_map ..).symm

theorem oneNotion_iff {mgr : SessionMgr} (consistent : Consistent mgr) : OneNotion mgr ↔ AllAlive mgr := by
  constructor
  · intro notions sid ctx found
    obtain ⟨other, same, alive⟩ := (notions.aliveSessions sid).mp ((mem_aliveSessions consistent sid).mpr ⟨ctx, found⟩)
    obtain rfl := Option.some.inj (found.symm.trans same)
    exact alive
  · intro all
    have present (sid : Int) : (∃ ctx, mgr.get sid = some ctx) ↔ Alive mgr sid := by
      constructor
      · rintro ⟨ctx, found⟩
        exact ⟨ctx, found, all sid ctx found⟩
      · rintro ⟨ctx, found, -⟩
        exact ⟨ctx, found⟩
    refine ⟨mgr.mem_broadcast, mgr.sendTo_iff, mgr.sendToMultiple_eq, ?_, ?_⟩
    · intro sid
      exact (mem_aliveSessions consistent sid).trans (present sid)
    · have count := mgr.count_eq_ncard
      simp only [present] at count
      exact count

def MarksNobody (mgr : SessionMgr) : Action → Prop
  | .markDead sid => mgr.get sid = none
  | _ => True

theorem step_allAlive {mgr next : SessionMgr} {action : Action} (stepped : mgr.step action = some next)
    (permitted : MarksNobody mgr action) (all : AllAlive mgr) : AllAlive next := by
  intro sid ctx found
  cases step_effect stepped with
  | shrink adds beats sublist => exact all sid ctx (lookup_of_sublist sublist found)
  | add socketFd ip port tick =>
      rw [get_add] at found
      split at found
      · cases found
        rfl
      · exact all sid ctx found
  | heartbeat k tick =>
      have looked : (mgr.modify k (ConnectionContext.beat tick)).get sid = some ctx := found
      rw [get_modify] at looked
      split at looked
      · obtain ⟨old, present, rfl⟩ := Option.map_eq_some_iff.mp looked
        exact all sid old present
      · exact all sid ctx looked
  | markDead k =>
      rw [markDead, modify_of_absent permitted] at found
      exact all sid ctx found

theorem step_marks {mgr next : SessionMgr} {action : Action} (stepped : mgr.step action = some next)
    (all : AllAlive next) : MarksNobody mgr action := by
  cases action with
  | markDead sid =>
      cases stepped
      cases found : mgr.get sid with
      | none => exact found
      | some ctx =>
          have dead : (mgr.markDead sid).get sid = some ctx.kill := by
            rw [markDead, get_modify, if_pos rfl, found]
            rfl
          cases all sid ctx.kill dead
  | _ => trivial

theorem one_notion_iff_nobody_marked (actions : List Action) (mgr : SessionMgr)
    (ran : exec step {} actions = some mgr) :
    (∀ n earlier, exec step {} (actions.take n) = some earlier → OneNotion earlier) ↔
      Respects MarksNobody step {} actions := by
  apply always_iff_respects (I := fun mgr => Consistent mgr ∧ AllAlive mgr) _ _ _ ran
  · refine ⟨initial_consistent, ?_⟩
    intro sid ctx found
    cases found
  · intro before action after stepped permitted both
    exact ⟨step_consistent stepped both.1, step_allAlive stepped permitted both.2⟩
  · intro state both
    exact (oneNotion_iff both.1).mpr both.2
  · intro before action after stepped both notions
    exact step_marks stepped ((oneNotion_iff (step_consistent stepped both.1)).mp notions)

theorem one_notion_after_kick :
    ∃ mgr, exec step {} [.add 10 "192.168.1.1" 12345 0, .add 11 "192.168.1.2" 12346 5, .kick 1] = some mgr ∧
      OneNotion mgr := by
  obtain ⟨mgr, ran⟩ : ∃ mgr, exec step {} [.add 10 "192.168.1.1" 12345 0, .add 11 "192.168.1.2" 12346 5, .kick 1] =
      some mgr := ⟨_, rfl⟩
  have quiet : Respects MarksNobody step {} [.add 10 "192.168.1.1" 12345 0, .add 11 "192.168.1.2" 12346 5, .kick 1] :=
    ⟨trivial, fun _ _ => ⟨trivial, fun _ _ => ⟨trivial, fun _ _ => trivial⟩⟩⟩
  exact ⟨mgr, ran, (one_notion_iff_nobody_marked _ mgr ran).mpr quiet 3 mgr ran⟩

/-- The marked session is not sent to, yet `alive_sessions()` has it and `stats()` counts it. -/
theorem marked_session_counted_alive :
    ∃ mgr, exec step {} [.add 10 "192.168.1.1" 12345 0, .markDead 1] = some mgr ∧
      mgr.sendTo 1 = false ∧ mgr.broadcast [] true = [] ∧ mgr.sendToMultiple [1] = 0 ∧
      mgr.aliveSessions.map ConnectionContext.sessionId = [1] ∧ mgr.stats.aliveCount = 1 ∧ ¬ OneNotion mgr := by
  obtain ⟨mgr, ran, ended⟩ := Option.map_eq_some_iff.mp (show
    (exec step {} [.add 10 "192.168.1.1" 12345 0, .markDead 1]).map (fun mgr => (mgr.sendTo 1,
      mgr.broadcast [] true, mgr.sendToMultiple [1], mgr.aliveSessions.map ConnectionContext.sessionId,
      mgr.stats.aliveCount)) = some (false, [], 0, [1], 1) from rfl)
  simp only [Prod.mk.injEq] at ended
  obtain ⟨unsent, silent, none_sent, listed, counted⟩ := ended
  refine ⟨mgr, ran, unsent, silent, none_sent, listed, counted, ?_⟩
  intro notions
  have sent := (notions.sendTo 1).mpr ((notions.aliveSessions 1).mp (by simp [listed]))
  rw [unsent] at sent
  cases sent

end SessionMgr

end ServerFramework.Business
