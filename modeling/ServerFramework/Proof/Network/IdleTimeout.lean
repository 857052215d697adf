import ServerFramework.Network.IdleTimeout
import Mathlib.Data.List.Basic

namespace ServerFramework.Tcp
open Library

def Verdict.Justified (v : Verdict) : Prop := v.idle → v.lastRecvTime.toNat + v.timeoutMs.toNat ≤ v.now.toNat

instance (v : Verdict) : Decidable v.Justified := inferInstanceAs (Decidable (_ → _))

/-- The stamp is not behind the clock value, or so far ahead that the wrapped difference stays within the timeout. -/
def Ordered (lastRecvTime now timeoutMs : UInt64) : Prop :=
  lastRecvTime ≤ now ∨ 2 ^ 64 ≤ (lastRecvTime.toNat - now.toNat) + timeoutMs.toNat

instance (lastRecvTime now timeoutMs : UInt64) : Decidable (Ordered lastRecvTime now timeoutMs) :=
  inferInstanceAs (Decidable (_ ∨ _))

theorem isIdle_iff (conn : Timing) (now timeoutMs : UInt64) :
    conn.isIdle now timeoutMs ↔ timeoutMs.toNat < (2 ^ 64 - conn.lastRecvTime.toNat + now.toNat) % 2 ^ 64 := by
  rw [Timing.isIdle, decide_eq_true_eq, gt_iff_lt, UInt64.lt_iff_toNat_lt, UInt64.toNat_sub]

theorem justified_iff_ordered (conn : Timing) (now timeoutMs : UInt64) :
    (conn.isIdle now timeoutMs → conn.lastRecvTime.toNat + timeoutMs.toNat ≤ now.toNat) ↔
      Ordered conn.lastRecvTime now timeoutMs := by
  have stamped := conn.lastRecvTime.toNat_lt
  have read := now.toNat_lt
  rw [isIdle_iff, Ordered, UInt64.le_iff_toNat_le]
  by_cases behind : conn.lastRecvTime.toNat ≤ now.toNat
  · have difference : (2 ^ 64 - conn.lastRecvTime.toNat + now.toNat) % 2 ^ 64 = now.toNat - conn.lastRecvTime.toNat := by
      omega
    rw [difference]
    omega
  · have difference : (2 ^ 64 - conn.lastRecvTime.toNat + now.toNat) % 2 ^ 64 =
        2 ^ 64 - (conn.lastRecvTime.toNat - now.toNat) := by
      omega
    rw [difference]
    omega

namespace IdleTimeout

def start (idleTimeoutMs : UInt64) : IdleTimeout := { idleTimeoutMs := idleTimeoutMs }

def NotOvertaken (s : IdleTimeout) : Action → Prop
  | .readStamp => match s.round with
      | .timed p _ now => ∀ conn ∈ s.made[p]?, Ordered conn.lastRecvTime now s.idleTimeoutMs
      | _ => True
  | _ => True

instance (s : IdleTimeout) : ∀ action, Decidable (NotOvertaken s action)
  | .readStamp => match round : s.round with
      | .timed p _ now => decidable_of_iff (∀ conn ∈ s.made[p]?, Ordered conn.lastRecvTime now s.idleTimeoutMs)
          (by rw [NotOvertaken, round])
      | .sleeping | .visiting _ => isTrue (by rw [NotOvertaken, round]; trivial)
  | .tick _ | .accept | .receive _ | .stamp _ | .erase _ | .wake _ | .readClock => isTrue trivial

theorem step_verdicts {s t : IdleTimeout} {action : Action} (stepped : s.step action = some t) :
    (action ≠ .readStamp ∧ t.verdicts = s.verdicts) ∨
      ∃ p left now conn, action = .readStamp ∧ s.round = .timed p left now ∧ s.made[p]? = some conn ∧
        t.verdicts = s.verdicts ++ [⟨p, now, conn.lastRecvTime, s.idleTimeoutMs, conn.isIdle now s.idleTimeoutMs⟩] := by
  cases action with
  | readStamp =>
      right
      unfold step at stepped
      cases round : s.round with
      | timed p left now =>
          rw [round] at stepped
          obtain ⟨conn, here, rfl⟩ := Option.map_eq_some_iff.mp stepped
          exact ⟨p, left, now, conn, rfl, rfl, here, rfl⟩
      | sleeping | visiting left =>
          rw [round] at stepped
          cases stepped
  | readClock =>
      refine .inl ⟨nofun, ?_⟩
      unfold step at stepped
      rcases round : s.round with _ | left | ⟨p, left, now⟩
      · rw [round] at stepped
        cases stepped
      · rw [round] at stepped
        cases left <;> cases stepped <;> rfl
      · rw [round] at stepped
        cases stepped
  | receive p =>
      obtain ⟨conn, here, rest⟩ := Option.bind_eq_some_iff.mp stepped
      obtain ⟨-, same⟩ := Option.ite_none_right_eq_some.mp rest
      cases same
      exact .inl ⟨nofun, rfl⟩
  | stamp p =>
      obtain ⟨conn, here, rest⟩ := Option.bind_eq_some_iff.mp stepped
      obtain ⟨tick, -, rfl⟩ := Option.map_eq_some_iff.mp rest
      exact .inl ⟨nofun, rfl⟩
  | _ =>
      obtain ⟨-, same⟩ := Option.ite_none_right_eq_some.mp stepped
      cases same
      exact .inl ⟨nofun, rfl⟩

theorem notOvertaken_of_ne (s : IdleTimeout) {action : Action} (other : action ≠ .readStamp) : NotOvertaken s action := by
  cases action with
  | readStamp => exact absurd rfl other
  | _ => trivial

theorem idle_justified_iff (idleTimeoutMs : UInt64) (actions : List Action) (s : IdleTimeout)
    (ran : exec step (start idleTimeoutMs) actions = some s) :
    (∀ n earlier, exec step (start idleTimeoutMs) (actions.take n) = some earlier →
      ∀ v ∈ earlier.verdicts, v.Justified) ↔ Respects NotOvertaken step (start idleTimeoutMs) actions := by
  apply always_iff_respects (I := fun s => ∀ v ∈ s.verdicts, v.Justified) _ (fun _ fine => fine) _ ran
  · intro v member
    exact absurd member List.not_mem_nil
  · intro before action after stepped ordered fine
    rcases step_verdicts stepped with ⟨other, same⟩ | ⟨p, left, now, conn, rfl, round, here, added⟩
    · rwa [same]
    · intro v member
      rw [added] at member
      rcases List.mem_append.mp member with old | new
      · exact fine v old
      · rw [List.mem_singleton.mp new]
        simp only [NotOvertaken, round] at ordered
        exact (justified_iff_ordered conn now before.idleTimeoutMs).mpr (ordered conn here)
  · intro before action after stepped fine holds
    rcases step_verdicts stepped with ⟨other, same⟩ | ⟨p, left, now, conn, rfl, round, here, added⟩
    · exact notOvertaken_of_ne before other
    · simp only [NotOvertaken, round]
      intro other there
      obtain rfl := Option.some.inj (here.symm.trans there)
      apply (justified_iff_ordered conn now before.idleTimeoutMs).mp
      apply holds ⟨p, now, conn.lastRecvTime, before.idleTimeoutMs, conn.isIdle now before.idleTimeoutMs⟩
      rw [added]
      exact List.mem_append_right _ (List.mem_singleton_self _)

theorem silent_connection_idle :
    ∃ s, exec step (start 30) [.tick 5, .accept, .tick 40, .wake [0], .readClock, .readStamp] = some s ∧
      ∀ v ∈ s.verdicts, v.Justified := by
  refine ⟨_, rfl, ?_⟩
  exact (idle_justified_iff 30 [.tick 5, .accept, .tick 40, .wake [0], .readClock, .readStamp] _ rfl).mpr (by decide) 6 _
    rfl

/-- A stamp lands between the two reads, one millisecond behind the clock value: the connection is taken for idle and
closed. -/
theorem stamped_connection_closed :
    ∃ s, exec step (start 30000)
        [.tick 1000, .accept, .wake [0], .readClock, .tick 1001, .receive 0, .stamp 0, .readStamp] = some s ∧
      s.verdicts = [⟨0, 1000, 1001, 30000, true⟩] ∧ (∃ v ∈ s.verdicts, ¬ v.Justified) ∧
      s.made.map Timing.closed = [true] := by
  refine ⟨_, rfl, by decide, by decide, by decide⟩

/-! ## What the monotonic clock gives -/

def Clocked (s : IdleTimeout) : Prop :=
  ∀ conn ∈ s.made, conn.lastRecvTime ≤ s.clock ∧ ∀ tick ∈ conn.received, tick ≤ s.clock

theorem Clocked.update {s : IdleTimeout} (clocked : Clocked s) {p : Nat} {conn : Timing}
    (stamp : conn.lastRecvTime ≤ s.clock) (pending : ∀ tick ∈ conn.received, tick ≤ s.clock) :
    Clocked (s.update p conn) := by
  intro other member
  rcases List.mem_or_eq_of_mem_set member with old | rfl
  · exact clocked other old
  · exact ⟨stamp, pending⟩

theorem step_clocked {s t : IdleTimeout} {action : Action} (stepped : s.step action = some t) (clocked : Clocked s) :
    Clocked t := by
  cases action with
  | tick later =>
      obtain ⟨forward, same⟩ := Option.ite_none_right_eq_some.mp stepped
      cases same
      intro conn member
      obtain ⟨stamp, pending⟩ := clocked conn member
      exact ⟨UInt64.le_trans stamp forward, fun tick here => UInt64.le_trans (pending tick here) forward⟩
  | accept =>
      obtain ⟨-, same⟩ := Option.ite_none_right_eq_some.mp stepped
      cases same
      intro conn member
      rcases List.mem_append.mp member with old | new
      · exact clocked conn old
      · rw [List.mem_singleton.mp new]
        exact ⟨UInt64.le_refl _, nofun⟩
  | erase p | wake order =>
      obtain ⟨-, same⟩ := Option.ite_none_right_eq_some.mp stepped
      cases same
      exact clocked
  | receive p =>
      obtain ⟨conn, here, rest⟩ := Option.bind_eq_some_iff.mp stepped
      obtain ⟨-, same⟩ := Option.ite_none_right_eq_some.mp rest
      cases same
      refine clocked.update ?_ ?_
      · exact (clocked conn (List.mem_of_getElem? here)).1
      · rintro tick ⟨⟩
        exact UInt64.le_refl _
  | stamp p =>
      obtain ⟨conn, here, rest⟩ := Option.bind_eq_some_iff.mp stepped
      obtain ⟨tick, received, rfl⟩ := Option.map_eq_some_iff.mp rest
      exact clocked.update ((clocked conn (List.mem_of_getElem? here)).2 tick received) nofun
  | readClock =>
      unfold step at stepped
      rcases round : s.round with _ | left | ⟨p, left, now⟩
      · rw [round] at stepped
        cases stepped
      · rw [round] at stepped
        cases left <;> cases stepped <;> exact clocked
      · rw [round] at stepped
        cases stepped
  | readStamp =>
      unfold step at stepped
      cases round : s.round with
      | timed p left now =>
          rw [round] at stepped
          obtain ⟨conn, here, rfl⟩ := Option.map_eq_some_iff.mp stepped
          obtain ⟨stamp, pending⟩ := clocked conn (List.mem_of_getElem? here)
          exact clocked.update stamp pending
      | sleeping | visiting left =>
          rw [round] at stepped
          cases stepped

def Checking (p : Nat) (s : IdleTimeout) : Prop :=
  ∃ left now, s.round = .timed p left now ∧ ∀ conn ∈ s.made[p]?, conn.lastRecvTime ≤ now

theorem readClock_checks {s t : IdleTimeout} {p : Nat} {left : List Nat} (stepped : s.step .readClock = some t)
    (next : s.round = .visiting (p :: left)) (clocked : Clocked s) : Checking p t := by
  rw [step, next] at stepped
  cases stepped
  exact ⟨left, s.clock, rfl, fun conn here => (clocked conn (List.mem_of_getElem? here)).1⟩

theorem Checking.keep {s t : IdleTimeout} {p : Nat} (checking : Checking p s) (round : t.round = s.round)
    (same : ∀ conn ∈ t.made[p]?, ∃ old ∈ s.made[p]?, conn.lastRecvTime = old.lastRecvTime) : Checking p t := by
  obtain ⟨left, now, stands, ordered⟩ := checking
  refine ⟨left, now, round.trans stands, ?_⟩
  intro conn here
  obtain ⟨old, there, equal⟩ := same conn here
  rw [equal]
  exact ordered old there

theorem update_stamp {s : IdleTimeout} {p q : Nat} {old conn : Timing} (here : s.made[q]? = some old)
    (kept : q = p → conn.lastRecvTime = old.lastRecvTime) :
    ∀ other ∈ (s.update q conn).made[p]?, ∃ older ∈ s.made[p]?, other.lastRecvTime = older.lastRecvTime := by
  intro other there
  by_cases same : q = p
  · subst same
    rw [update, List.getElem?_set_self (List.getElem?_eq_some_iff.mp here).1] at there
    cases there
    exact ⟨old, here, kept rfl⟩
  · rw [update, List.getElem?_set_ne same] at there
    exact ⟨other, there, rfl⟩

theorem step_checking {s t : IdleTimeout} {action : Action} {p : Nat} (stepped : s.step action = some t)
    (unstamped : action ≠ .stamp p) (unread : action ≠ .readStamp) (checking : Checking p s) : Checking p t := by
  have ⟨left, now, stands, _⟩ := checking
  cases action with
  | tick later =>
      obtain ⟨-, same⟩ := Option.ite_none_right_eq_some.mp stepped
      cases same
      exact checking
  | accept | erase q =>
      rw [step, stands, if_neg nofun] at stepped
      cases stepped
  | wake order =>
      rw [step, stands, if_neg (fun both => nomatch both.1)] at stepped
      cases stepped
  | receive q =>
      obtain ⟨conn, here, rest⟩ := Option.bind_eq_some_iff.mp stepped
      obtain ⟨-, same⟩ := Option.ite_none_right_eq_some.mp rest
      cases same
      exact checking.keep rfl (update_stamp here fun _ => rfl)
  | stamp q =>
      obtain ⟨conn, here, rest⟩ := Option.bind_eq_some_iff.mp stepped
      obtain ⟨tick, -, rfl⟩ := Option.map_eq_some_iff.mp rest
      exact checking.keep rfl (update_stamp here fun same => absurd (congrArg Action.stamp same) unstamped)
  | readClock =>
      rw [step, stands] at stepped
      cases stepped
  | readStamp => exact absurd rfl unread

/-- Only a stamp that lands between the two reads of a check can overtake it. -/
theorem undisturbed_check {idleTimeoutMs : UInt64} {before between : List Action} {s t u : IdleTimeout} {p : Nat}
    {left : List Nat} (ran : exec step (start idleTimeoutMs) before = some s) (next : s.round = .visiting (p :: left))
    (timed : s.step .readClock = some t) (during : exec step t between = some u)
    (quiet : ∀ action ∈ between, action ≠ .stamp p ∧ action ≠ .readStamp) : NotOvertaken u .readStamp := by
  have clocked : Clocked s := by
    apply exec_invariant (fun s a t stepped => step_clocked stepped) ran
    exact fun conn member => absurd member List.not_mem_nil
  obtain ⟨rest, now, stands, ordered⟩ : Checking p u := by
    apply exec_invariant_of_respects _ during (respects_of_forall quiet t) (readClock_checks timed next clocked)
    intro s a t stepped silent
    exact step_checking stepped silent.1 silent.2
  rw [NotOvertaken, stands]
  intro conn here
  exact .inl (ordered conn here)

end IdleTimeout

end ServerFramework.Tcp
