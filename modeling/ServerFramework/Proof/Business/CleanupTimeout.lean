import ServerFramework.Proof.Business.SessionMgr

namespace ServerFramework.Business
open Library

namespace SessionMgr

def TimedOut (call : Cleanup) (ctx : ConnectionContext) : Prop :=
  ctx.lastMsgTime.toNat + call.timeout.toNat < call.now.toNat

instance (call : Cleanup) : DecidablePred (TimedOut call) := fun _ => Nat.decLt ..

structure EvictsStale (call : Cleanup) : Prop where
  stale : ∀ ctx ∈ call.erased, TimedOut call ctx
  counted : ∀ n, call.returned = some n → n = call.erased.length

/-- The sum in the scan of `cleanup_timeout` does not wrap around. -/
def NoOverflow (mgr : SessionMgr) : Action → Prop
  | .scan _ timeout _ => ∀ entry ∈ mgr.sessions.entries, entry.2.lastMsgTime.toNat + timeout.toNat < 2 ^ 64
  | _ => True

/-- No session that a running `cleanup_timeout` has yet to remove gets a heartbeat that makes it fresh, or is taken
out of the table by anybody else. -/
def Undisturbed (mgr : SessionMgr) : Action → Prop
  | .heartbeat sid tick =>
      ∀ call ∈ mgr.cleanups, sid ∈ call.toRemove → tick.toNat + call.timeout.toNat < call.now.toNat
  | .remove sid => ∀ call ∈ mgr.cleanups, sid ∉ call.toRemove
  | .kick sid => ∀ call ∈ mgr.cleanups, sid ∉ call.toRemove
  | .shutdown => ∀ call ∈ mgr.cleanups, call.toRemove = []
  | .evict i => ∀ call ∈ mgr.cleanups[i]?, ∀ sid ∈ call.toRemove.head?,
      ∀ other ∈ mgr.cleanups.eraseIdx i, sid ∉ other.toRemove
  | _ => True

instance (mgr : SessionMgr) : ∀ action, Decidable (NoOverflow mgr action)
  | .scan .. => inferInstanceAs (Decidable (∀ _ ∈ _, _))
  | .add .. | .remove _ | .heartbeat .. | .kick _ | .markDead _ | .shutdown | .evict _ | .finish _ => isTrue trivial

instance (mgr : SessionMgr) : ∀ action, Decidable (Undisturbed mgr action)
  | .heartbeat .. => inferInstanceAs (Decidable (∀ _ ∈ _, _))
  | .remove _ => inferInstanceAs (Decidable (∀ _ ∈ _, _))
  | .kick _ => inferInstanceAs (Decidable (∀ _ ∈ _, _))
  | .shutdown => inferInstanceAs (Decidable (∀ _ ∈ _, _))
  | .evict _ => inferInstanceAs (Decidable (∀ _ ∈ _, ∀ _ ∈ _, ∀ _ ∈ _, _))
  | .add .. | .markDead _ | .scan .. | .finish _ => isTrue trivial

structure Sound (mgr : SessionMgr) (call : Cleanup) : Prop where
  nodup : call.toRemove.Nodup
  pending : ∀ sid ∈ call.toRemove, ∃ ctx, mgr.get sid = some ctx ∧ TimedOut call ctx
  erased : ∀ ctx ∈ call.erased, TimedOut call ctx
  count : call.count = call.erased.length
  returned : ∀ n, call.returned = some n → call.toRemove = [] ∧ n = call.count

theorem Sound.evictsStale {mgr : SessionMgr} {call : Cleanup} (sound : Sound mgr call) : EvictsStale call :=
  ⟨sound.erased, fun n left => (sound.returned n left).2.trans sound.count⟩

theorem Sound.transfer {mgr next : SessionMgr} {call : Cleanup} (sound : Sound mgr call)
    (kept : ∀ sid ∈ call.toRemove, ∀ ctx, mgr.get sid = some ctx → TimedOut call ctx →
      ∃ later, next.get sid = some later ∧ TimedOut call later) : Sound next call := by
  refine ⟨sound.nodup, ?_, sound.erased, sound.count, sound.returned⟩
  intro sid member
  obtain ⟨ctx, found, stale⟩ := sound.pending sid member
  exact kept sid member ctx found stale

theorem Sound.same {mgr next : SessionMgr} {call : Cleanup} (sound : Sound mgr call)
    (kept : ∀ sid ∈ call.toRemove, next.get sid = mgr.get sid) : Sound next call :=
  sound.transfer fun sid member ctx found stale => ⟨ctx, (kept sid member).trans found, stale⟩

theorem Sound.removed {mgr next : SessionMgr} {call : Cleanup} {k : Int} (sound : Sound mgr call)
    (looked : ∀ sid, next.get sid = if sid = k then none else mgr.get sid) (other : k ∉ call.toRemove) :
    Sound next call := by
  apply sound.same
  intro sid pending
  rw [looked, if_neg]
  rintro rfl
  exact other pending

theorem Sound.modified {mgr next : SessionMgr} {call : Cleanup} {k : Int} {f : ConnectionContext → ConnectionContext}
    (sound : Sound mgr call) (looked : ∀ sid, next.get sid = if sid = k then (mgr.get sid).map f else mgr.get sid)
    (stale : k ∈ call.toRemove → ∀ ctx, TimedOut call ctx → TimedOut call (f ctx)) : Sound next call := by
  apply sound.transfer
  intro sid pending ctx found late
  rw [looked, found]
  by_cases same : sid = k
  · subst same
    rw [if_pos rfl]
    exact ⟨f ctx, rfl, stale pending ctx late⟩
  · rw [if_neg same]
    exact ⟨ctx, rfl, late⟩

theorem get_kick (mgr : SessionMgr) (sid k : Int) :
    (mgr.kick k).2.get sid = if sid = k then none else mgr.get sid := by
  cases found : mgr.get k with
  | none =>
      by_cases same : sid = k
      · subst same
        simp [kick, found]
      · simp [kick, found, same]
  | some ctx =>
      simp only [kick, found]
      exact mgr.get_remove sid k

theorem kick_cleanups (mgr : SessionMgr) (sid : Int) : (mgr.kick sid).2.cleanups = mgr.cleanups := by
  cases found : mgr.get sid with
  | none => simp only [kick, found]
  | some ctx => simp only [kick, found, remove]

theorem modify_cleanups (mgr : SessionMgr) (sid : Int) (f : ConnectionContext → ConnectionContext) :
    (mgr.modify sid f).cleanups = mgr.cleanups := by
  rw [modify_eq]

/-! ## The scan -/

theorem mem_timedOut {mgr : SessionMgr} {now timeout : UInt64} {sid : Int} (member : sid ∈ mgr.timedOut now timeout) :
    ∃ ctx, mgr.get sid = some ctx ∧ ctx.lastMsgTime + timeout < now := by
  obtain ⟨⟨k, ctx⟩, kept, rfl⟩ := List.mem_map.mp member
  obtain ⟨among, late⟩ := List.mem_filter.mp kept
  rw [Bool.and_eq_true, decide_eq_true_eq] at late
  exact ⟨ctx, (mgr.get_iff_entry k ctx).mpr among, late.2⟩

theorem timedOut_nodup (mgr : SessionMgr) (now timeout : UInt64) : (mgr.timedOut now timeout).Nodup := by
  have sublist : (mgr.timedOut now timeout).Sublist mgr.sessions.keys := List.filter_sublist.map Sigma.fst
  exact sublist.nodup mgr.sessions.keys_nodup

theorem scan_sound {mgr : SessionMgr} {now timeout : UInt64} {order : List Int}
    (permutation : order.Perm (mgr.timedOut now timeout))
    (small : ∀ entry ∈ mgr.sessions.entries, entry.2.lastMsgTime.toNat + timeout.toNat < 2 ^ 64) :
    Sound mgr { now := now, timeout := timeout, toRemove := order } := by
  refine ⟨permutation.nodup_iff.mpr (mgr.timedOut_nodup now timeout), ?_, ?_, rfl, ?_⟩
  · intro sid member
    obtain ⟨ctx, found, late⟩ := mem_timedOut (permutation.mem_iff.mp member)
    refine ⟨ctx, found, ?_⟩
    have bound := small ⟨sid, ctx⟩ ((mgr.get_iff_entry sid ctx).mp found)
    rw [UInt64.lt_iff_toNat_lt, UInt64.toNat_add, Nat.mod_eq_of_lt bound] at late
    exact late
  · intro ctx member
    cases member
  · intro n left
    cases left

/-! ## The removals -/

theorem evict_sound {mgr : SessionMgr} {i : Nat} {call : Cleanup} {sid : Int} {rest : List Int}
    (sound : Sound mgr call) (pending : call.toRemove = sid :: rest) :
    Sound (mgr.evict i call sid rest) { call with
      toRemove := rest, count := call.count + 1, erased := call.erased ++ (mgr.get sid).toList } := by
  obtain ⟨ctx, found, stale⟩ := sound.pending sid (by simp [pending])
  have nodup := sound.nodup
  rw [pending, List.nodup_cons] at nodup
  refine ⟨nodup.2, ?_, ?_, ?_, ?_⟩
  · intro k member
    obtain ⟨other, present, late⟩ := sound.pending k (by simp [pending, member])
    have apart : k ≠ sid := by
      rintro rfl
      exact nodup.1 member
    exact ⟨other, ((mgr.get_remove k sid).trans (if_neg apart)).trans present, late⟩
  · intro other member
    rw [found, Option.toList_some, List.mem_append, List.mem_singleton] at member
    rcases member with before | rfl
    · exact sound.erased other before
    · exact stale
  · rw [found, Option.toList_some, List.length_append, ← sound.count]
    rfl
  · intro n left
    have done := (sound.returned n left).1
    rw [pending] at done
    cases done

theorem finish_sound {mgr next : SessionMgr} {call : Cleanup} (sound : Sound mgr call) (done : call.toRemove = []) :
    Sound next { call with returned := some call.count } := by
  refine ⟨sound.nodup, ?_, sound.erased, sound.count, ?_⟩
  · intro sid member
    rw [done] at member
    cases member
  · intro n left
    cases left
    exact ⟨done, rfl⟩

theorem mem_set_cases {calls : List Cleanup} {i : Nat} {call other : Cleanup} (member : other ∈ calls.set i call) :
    other = call ∨ other ∈ calls.eraseIdx i := by
  obtain ⟨j, here⟩ := List.mem_iff_getElem?.mp member
  by_cases same : i = j
  · subst same
    rw [List.getElem?_set_self'] at here
    obtain ⟨old, -, rfl⟩ := Option.map_eq_some_iff.mp here
    exact .inl rfl
  · rw [List.getElem?_set_ne same] at here
    exact .inr (List.mem_eraseIdx_iff_getElem?.mpr ⟨j, Ne.symm same, here⟩)

theorem step_sound {mgr next : SessionMgr} {action : Action} (stepped : mgr.step action = some next)
    (consistent : Consistent mgr) (exact : NoOverflow mgr action) (undisturbed : Undisturbed mgr action)
    (sound : ∀ call ∈ mgr.cleanups, Sound mgr call) : ∀ call ∈ next.cleanups, Sound next call := by
  cases action with
  | add socketFd ip port tick =>
      simp only [step, Option.ite_none_right_eq_some, Option.some.injEq] at stepped
      obtain ⟨-, rfl⟩ := stepped
      intro call member
      apply (sound call member).same
      intro sid pending
      obtain ⟨ctx, found, -⟩ := (sound call member).pending sid pending
      rw [get_add, if_neg (consistent.registered sid ctx found).upper.ne]
  | remove sid =>
      cases stepped
      intro call member
      exact (sound call member).removed (fun k => mgr.get_remove k sid) (undisturbed call member)
  | heartbeat sid tick =>
      cases stepped
      intro call member
      replace member : call ∈ mgr.cleanups := by rwa [heartbeat, modify_cleanups] at member
      have looked (k : Int) : (mgr.heartbeat sid tick).get k =
          if k = sid then (mgr.get k).map (ConnectionContext.beat tick) else mgr.get k := mgr.get_modify k sid _
      exact (sound call member).modified looked fun pending _ _ => undisturbed call member pending
  | kick sid =>
      cases stepped
      intro call member
      rw [kick_cleanups] at member
      exact (sound call member).removed (fun k => mgr.get_kick k sid) (undisturbed call member)
  | markDead sid =>
      cases stepped
      intro call member
      rw [markDead, modify_cleanups] at member
      exact (sound call member).modified (fun k => mgr.get_modify k sid ConnectionContext.kill) fun _ _ stale => stale
  | shutdown =>
      cases stepped
      intro call member
      apply (sound call member).same
      intro sid pending
      rw [undisturbed call member] at pending
      cases pending
  | scan now timeout order =>
      obtain ⟨permutation, rfl⟩ := step_scan stepped
      intro call member
      rcases List.mem_append.mp member with old | new
      · exact (sound call old).same fun _ _ => rfl
      · obtain rfl := List.mem_singleton.mp new
        exact (scan_sound permutation exact).same fun _ _ => rfl
  | evict i =>
      obtain ⟨call, sid, rest, here, pending, rfl⟩ := step_evict stepped
      intro other member
      rcases mem_set_cases member with rfl | apart
      · exact evict_sound (sound call (List.mem_of_getElem? here)) pending
      · have free := undisturbed call here sid (by rw [pending]; rfl) other apart
        exact (sound other (List.mem_of_mem_eraseIdx apart)).removed (fun k => mgr.get_remove k sid) free
  | finish i =>
      obtain ⟨call, here, done, -, rfl⟩ := step_finish stepped
      intro other member
      rcases mem_set_cases member with rfl | apart
      · exact finish_sound (sound call (List.mem_of_getElem? here)) done
      · exact (sound other (List.mem_of_mem_eraseIdx apart)).same fun _ _ => rfl

theorem cleanup_evicts_only_stale (actions : List Action) (mgr : SessionMgr) (ran : exec step {} actions = some mgr)
    (exact : Respects NoOverflow step {} actions) (undisturbed : Respects Undisturbed step {} actions) :
    ∀ call ∈ mgr.cleanups, EvictsStale call := by
  have both : Consistent mgr ∧ ∀ call ∈ mgr.cleanups, Sound mgr call := by
    refine exec_invariant_of_respects (P := fun mgr => Consistent mgr ∧ ∀ call ∈ mgr.cleanups, Sound mgr call) ?_ ran
      (exact.and undisturbed) ⟨initial_consistent, ?_⟩
    · intro before action after stepped allowed holds
      exact ⟨step_consistent stepped holds.1, step_sound stepped holds.1 allowed.1 allowed.2 holds.2⟩
    · intro call member
      cases member
  intro call member
  exact (both.2 call member).evictsStale

theorem idle_session_evicted :
    ∃ mgr, exec step {} [.add 10 "192.168.1.1" 12345 0, .add 11 "192.168.1.2" 12346 20000, .scan 40000 30000 [1],
        .heartbeat 2 40000, .evict 0, .finish 0] = some mgr ∧
      mgr.cleanups.map (fun call => (call.returned, call.erased.length)) = [(some 1, 1)] ∧
      ∀ call ∈ mgr.cleanups, EvictsStale call := by
  obtain ⟨mgr, ran, ended⟩ := Option.map_eq_some_iff.mp (show
    (exec step {} [.add 10 "192.168.1.1" 12345 0, .add 11 "192.168.1.2" 12346 20000, .scan 40000 30000 [1],
      .heartbeat 2 40000, .evict 0, .finish 0]).map (fun mgr =>
        mgr.cleanups.map fun call => (call.returned, call.erased.length)) = some [(some 1, 1)] by decide)
  exact ⟨mgr, ran, ended, cleanup_evicts_only_stale _ mgr ran (by decide) (by decide)⟩

/-- A heartbeat between the scan and the removal does not save the session, and a removal there is counted. -/
theorem fresh_session_evicted :
    (∃ mgr, exec step {} [.add 10 "192.168.1.1" 12345 0, .scan 31000 30000 [1], .heartbeat 1 31000, .evict 0,
        .finish 0] = some mgr ∧
      Respects NoOverflow step {} [.add 10 "192.168.1.1" 12345 0, .scan 31000 30000 [1], .heartbeat 1 31000, .evict 0,
        .finish 0] ∧
      ∃ call ∈ mgr.cleanups, ∃ ctx ∈ call.erased, ¬ TimedOut call ctx) ∧
    (∃ mgr, exec step {} [.add 10 "192.168.1.1" 12345 0, .scan 31000 30000 [1], .remove 1, .evict 0,
        .finish 0] = some mgr ∧
      Respects NoOverflow step {} [.add 10 "192.168.1.1" 12345 0, .scan 31000 30000 [1], .remove 1, .evict 0,
        .finish 0] ∧
      ∃ call ∈ mgr.cleanups, call.returned = some 1 ∧ call.erased = []) := by
  constructor
  · obtain ⟨mgr, ran, ended⟩ := Option.map_eq_some_iff.mp (show
      (exec step {} [.add 10 "192.168.1.1" 12345 0, .scan 31000 30000 [1], .heartbeat 1 31000, .evict 0,
        .finish 0]).map (fun mgr => decide (∃ call ∈ mgr.cleanups, ∃ ctx ∈ call.erased, ¬ TimedOut call ctx)) =
          some true by decide)
    exact ⟨mgr, ran, by decide, of_decide_eq_true ended⟩
  · obtain ⟨mgr, ran, ended⟩ := Option.map_eq_some_iff.mp (show
      (exec step {} [.add 10 "192.168.1.1" 12345 0, .scan 31000 30000 [1], .remove 1, .evict 0,
        .finish 0]).map (fun mgr => decide (∃ call ∈ mgr.cleanups, call.returned = some 1 ∧ call.erased = [])) =
          some true by decide)
    exact ⟨mgr, ran, by decide, of_decide_eq_true ended⟩

end SessionMgr

end ServerFramework.Business
