import ServerFramework.Library.Runs
import ServerFramework.Proof.Network.TcpClient

namespace ServerFramework.Tcp.TcpClient
open Library

def Alternating (log : List Notice) : Prop :=
  ∀ i notice, log[i]? = some notice → notice = if i % 2 = 0 then .connected else .closed

def Call.pending : Call → Bool
  | .startWriter | .announcing => true
  | _ => false

def waiting (c : TcpClient) : Nat := c.calls.countP Call.pending

/-- The read thread of an announced connection has its `on_close_` call ahead of it. -/
def Served (c : TcpClient) : Prop := c.readStage ≠ .returned ∧ c.waiting = 0

-- Only the four places that call a handler matter.
def Paired (c : TcpClient) : Action → Prop
  | .call i _ =>
      (c.calls[i]? = some .announcing → c.byReconnect = false) ∧
      (c.calls[i]? = some .closing → c.byReconnect = true)
  | .reconnect _ => c.reconnect = .announcing → c.byReconnect = false ∧ ¬ c.Served
  | .notify => c.waiting = 0
  | _ => True

inductive Effect (c t : TcpClient) : Prop
  | terminated (log : t.log = c.log) (terminated : t.terminated = true)
  | silent (log : t.log = c.log) (reconnected : t.byReconnect = c.byReconnect) (waiting : t.waiting = c.waiting)
      (stage : t.readStage ≠ .returned ↔ c.readStage ≠ .returned)
      (handle : c.readStage ≠ .returned → c.readHandle = true → t.readHandle = true)
  | started (log : t.log = c.log) (reconnected : t.byReconnect = c.byReconnect) (free : c.readHandle = false)
      (waiting : t.waiting = c.waiting + 1) (stage : t.readStage ≠ .returned) (handle : t.readHandle = true)
  | announced (log : t.log = c.log ++ [.connected]) (reconnected : t.byReconnect = c.byReconnect)
      (alone : c.byReconnect = false) (waiting : c.waiting = t.waiting + 1) (stage : t.readStage = c.readStage)
      (handle : t.readHandle = c.readHandle)
  | reconnected (log : t.log = c.log ++ [.connected]) (reconnected : t.byReconnect = true)
      (alone : c.byReconnect = false) (unserved : ¬ c.Served) (waiting : t.waiting = c.waiting)
      (stage : t.readStage = c.readStage) (handle : t.readHandle = c.readHandle)
  | readerClosed (log : t.log = c.log ++ [.closed]) (reconnected : t.byReconnect = c.byReconnect)
      (none : c.waiting = 0) (waiting : t.waiting = c.waiting) (before : c.readStage ≠ .returned)
      (stage : t.readStage = .returned)
  | callerClosed (log : t.log = c.log ++ [.closed]) (reconnected : t.byReconnect = false)
      (before : c.byReconnect = true) (waiting : t.waiting = c.waiting) (stage : t.readStage = c.readStage)
      (handle : t.readHandle = c.readHandle)

/-- An odd log has its last connection open: either `reconnect_loop` made it, or a read thread will close it. -/
structure Books (c : TcpClient) : Prop where
  openness : c.log.length % 2 = 1 ↔ c.byReconnect = true ∨ c.Served
  exclusive : c.byReconnect = true → ¬ c.Served
  pending : c.waiting ≠ 0 → c.readStage ≠ .returned
  single : c.waiting ≤ 1
  handle : c.readStage ≠ .returned → c.readHandle = true

structure Kept (c : TcpClient) : Prop where
  alternating : Alternating c.log
  books : c.terminated = false → Books c

theorem alternating_snoc {log : List Notice} {notice : Notice} (alternating : Alternating log)
    (next : notice = if log.length % 2 = 0 then .connected else .closed) : Alternating (log ++ [notice]) := by
  intro i other found
  by_cases inside : i < log.length
  · rw [List.getElem?_append_left inside] at found
    exact alternating i other found
  · rw [List.getElem?_append_right (Nat.le_of_not_lt inside)] at found
    obtain ⟨last, same⟩ := List.getElem?_eq_some_iff.mp found
    obtain rfl : i = log.length := by
      rw [List.length_singleton] at last
      omega
    simpa [← next] using same.symm

theorem Books.even {c : TcpClient} (books : Books c) (alone : c.byReconnect = false) (unserved : ¬ c.Served) :
    c.log.length % 2 = 0 := by
  have closed : ¬ c.log.length % 2 = 1 := by
    rw [books.openness, alone]
    rintro (impossible | served)
    · cases impossible
    · exact unserved served
  omega

theorem not_served_of_pending {c : TcpClient} {n : Nat} (waiting : c.waiting = n + 1) : ¬ c.Served := by
  intro served
  rw [Served, waiting] at served
  cases served.2

theorem Effect.alternating {c t : TcpClient} (effect : Effect c t) (books : Books c)
    (alternating : Alternating c.log) : Alternating t.log := by
  cases effect with
  | terminated log | silent log | started log =>
      rw [log]
      exact alternating
  | announced log _ alone waiting =>
      rw [log]
      apply alternating_snoc alternating
      rw [books.even alone (not_served_of_pending waiting), if_pos rfl]
  | reconnected log _ alone unserved =>
      rw [log]
      apply alternating_snoc alternating
      rw [books.even alone unserved, if_pos rfl]
  | readerClosed log _ nobody _ before =>
      rw [log]
      apply alternating_snoc alternating
      rw [books.openness.mpr (.inr ⟨before, nobody⟩)]
      rfl
  | callerClosed log _ before =>
      rw [log]
      apply alternating_snoc alternating
      rw [books.openness.mpr (.inl before)]
      rfl

theorem Books.carry {c t : TcpClient} (books : Books c) (waiting : t.waiting = c.waiting)
    (stage : t.readStage ≠ .returned ↔ c.readStage ≠ .returned)
    (handle : c.readStage ≠ .returned → c.readHandle = true → t.readHandle = true)
    (openness : t.log.length % 2 = 1 ↔ t.byReconnect = true ∨ c.Served)
    (exclusive : t.byReconnect = true → ¬ c.Served) : Books t := by
  have served : t.Served ↔ c.Served := by rw [Served, Served, waiting, stage]
  refine ⟨?_, ?_, ?_, ?_, ?_⟩
  · rw [served]
    exact openness
  · rw [served]
    exact exclusive
  · rw [waiting, stage]
    exact books.pending
  · rw [waiting]
    exact books.single
  · intro later
    have before := stage.mp later
    exact handle before (books.handle before)

theorem Effect.books {c t : TcpClient} (effect : Effect c t) (running : t.terminated = false) (books : Books c) :
    Books t := by
  cases effect with
  | terminated _ terminated => cases running.symm.trans terminated
  | silent log reconnected waiting stage kept =>
      apply books.carry waiting stage kept
      · rw [log, reconnected]
        exact books.openness
      · rw [reconnected]
        exact books.exclusive
  | started log reconnected free waiting stage here =>
      have returned : c.readStage = .returned := by
        by_contra running
        cases free.symm.trans (books.handle running)
      have nobody : c.waiting = 0 := by
        by_contra somebody
        exact books.pending somebody returned
      have before : ¬ c.Served := fun served => served.1 returned
      have after := not_served_of_pending waiting
      refine ⟨?_, fun _ => after, fun _ => stage, by simp [waiting, nobody], fun _ => here⟩
      rw [log, reconnected, books.openness, iff_false_intro before, iff_false_intro after]
  | announced log reconnected alone waiting stage here =>
      have running : c.readStage ≠ .returned := books.pending (by rw [waiting]; exact Nat.succ_ne_zero _)
      have nobody : t.waiting = 0 := by
        have single := books.single
        omega
      have served : t.Served := ⟨by rw [stage]; exact running, nobody⟩
      have closed := books.even alone (not_served_of_pending waiting)
      refine ⟨?_, ?_, fun _ => served.1, by simp [nobody], by rw [stage, here]; exact books.handle⟩
      · rw [log, List.length_append, List.length_singleton]
        exact ⟨fun _ => .inr served, fun _ => by omega⟩
      · rw [reconnected, alone]
        exact nofun
  | reconnected log reconnected alone unserved waiting stage here =>
      have closed := books.even alone unserved
      apply books.carry waiting (by rw [stage]) (fun _ handle => here.trans handle)
      · rw [log, List.length_append, List.length_singleton]
        exact ⟨fun _ => .inl reconnected, fun _ => by omega⟩
      · exact fun _ => unserved
  | readerClosed log reconnected nobody waiting before stage =>
      have served : c.Served := ⟨before, nobody⟩
      have odd := books.openness.mpr (.inr served)
      have after : ¬ t.Served := fun served => served.1 stage
      refine ⟨?_, fun _ => after, ?_, by rw [waiting]; exact books.single, fun running => absurd stage running⟩
      · rw [log, List.length_append, List.length_singleton, reconnected]
        constructor
        · intro still
          omega
        · rintro (another | served)
          · exact absurd served (books.exclusive another)
          · exact absurd served after
      · rw [waiting, nobody]
        exact fun somebody => absurd rfl somebody
  | callerClosed log reconnected before waiting stage here =>
      have odd := books.openness.mpr (.inl before)
      have unserved := books.exclusive before
      apply books.carry waiting (by rw [stage]) (fun _ handle => here.trans handle)
      · rw [log, List.length_append, List.length_singleton, reconnected]
        constructor
        · intro still
          omega
        · rintro (impossible | served)
          · cases impossible
          · exact absurd served unserved
      · exact fun _ => unserved

/-! ## The effect of every step -/

theorem countP_putCall {calls : List Call} {i : Nat} {call : Call} (found : calls[i]? = some call) (p : Call → Bool)
    (next : Option Call) :
    (putCall calls i next).countP p + [call].countP p = calls.countP p + next.toList.countP p := by
  obtain ⟨inside, rfl⟩ := List.getElem?_eq_some_iff.mp found
  have whole := List.take_append_drop i calls
  rw [List.drop_eq_getElem_cons inside] at whole
  have count : calls.countP p = (calls.take i).countP p + ([calls[i]].countP p + (calls.drop (i + 1)).countP p) := by
    conv => lhs; rw [← whole]
    rw [List.countP_append, ← List.singleton_append, List.countP_append]
  cases next with
  | none =>
      rw [putCall, List.eraseIdx_eq_take_drop_succ, List.countP_append, count]
      simp
      omega
  | some other =>
      rw [putCall, List.set_eq_take_append_cons_drop, if_pos inside, List.countP_append, ← List.singleton_append,
        List.countP_append, count]
      simp
      omega

theorem waiting_putCall {c c' : TcpClient} {i : Nat} {call : Call} {next : Option Call}
    (found : c.calls[i]? = some call)
    (same : next.toList.countP Call.pending = [call].countP Call.pending) :
    (c'.withCalls (putCall c.calls i next)).waiting = c.waiting := by
  have count := countP_putCall found Call.pending next
  rw [same] at count
  exact Nat.add_right_cancel count

theorem connectNext_pending (out : Dial ⊕ Bool) : (connectNext out).toList.countP Call.pending = 0 := by
  cases out with
  | inl dial => rfl
  | inr ok => cases ok <;> rfl

theorem advance_effect {c c' : TcpClient} {i : Nat} {ok : Bool} {call : Call} {next : Option Call}
    (found : c.calls[i]? = some call) (advanced : c.advance ok call = some (c', next))
    (paired : c.Paired (.call i ok)) : Effect c (c'.withCalls (putCall c.calls i next)) := by
  cases call with
  | checking =>
      cases advanced
      refine .silent rfl rfl (waiting_putCall found ?_) Iff.rfl fun _ handle => handle
      cases c.running <;> rfl
  | launching =>
      cases advanced
      cases handle : c.reconnectHandle with
      | true =>
          rw [launch_joinable handle]
          exact .terminated rfl rfl
      | false =>
          rw [launch_free handle]
          exact .silent rfl rfl (waiting_putCall found rfl) Iff.rfl fun _ handle => handle
  | trying dial =>
      cases advanced
      rcases tryConnect_cases c ok dial with ⟨-, -, same⟩ | ⟨sock, sockets, out, same, -⟩
      · rw [same]
        exact .silent rfl rfl (waiting_putCall found (connectNext_pending _)) Iff.rfl fun _ handle => handle
      · rw [same]
        exact .silent rfl rfl (waiting_putCall found (connectNext_pending _)) Iff.rfl fun _ handle => handle
  | startReader =>
      cases advanced
      cases handle : c.readHandle with
      | true =>
          rw [startReader_joinable handle]
          exact .terminated rfl rfl
      | false =>
          rw [startReader_free handle]
          refine .started rfl rfl handle (countP_putCall found Call.pending (some .startWriter)) ?_ rfl
          intro returned
          cases returned
  | startWriter =>
      cases advanced
      cases handle : c.writeHandle with
      | true =>
          rw [startWriter_joinable handle]
          exact .terminated rfl rfl
      | false =>
          rw [startWriter_free handle]
          exact .silent rfl rfl (waiting_putCall found rfl) Iff.rfl fun _ handle => handle
  | announcing =>
      cases advanced
      exact .announced rfl rfl (paired.1 found) (countP_putCall found Call.pending none).symm rfl rfl
  | leaving =>
      cases advanced
      refine .silent rfl rfl (waiting_putCall found ?_) Iff.rfl fun _ handle => handle
      cases c.running <;> rfl
  | stopping | clearing | closingSocket =>
      cases advanced
      exact .silent rfl rfl (waiting_putCall found rfl) Iff.rfl fun _ handle => handle
  | joinWriter | joinReconnect =>
      simp only [advance] at advanced
      split at advanced
      · cases advanced
        exact .silent rfl rfl (waiting_putCall found rfl) Iff.rfl fun _ handle => handle
      · cases advanced
  | joinReader =>
      simp only [advance] at advanced
      split at advanced
      case isTrue finished =>
        cases advanced
        exact .silent rfl rfl (waiting_putCall found rfl) Iff.rfl fun running handle => absurd (finished handle) running
      case isFalse => cases advanced
  | closing =>
      cases advanced
      exact .callerClosed rfl rfl (paired.2 found) (waiting_putCall found rfl) rfl rfl

theorem reconnectLoop_effect {c t : TcpClient} {ok : Bool} (stepped : c.reconnectLoop ok = some t)
    (paired : c.Paired (.reconnect ok)) : Effect c t := by
  unfold reconnectLoop at stepped
  cases stage : c.reconnect with
  | top | sleeping =>
      rw [stage] at stepped
      cases stepped
      exact .silent rfl rfl rfl Iff.rfl fun _ handle => handle
  | trying dial =>
      rw [stage] at stepped
      cases stepped
      rcases tryConnect_cases c ok dial with ⟨-, -, same⟩ | ⟨sock, sockets, out, same, -⟩
      · rw [same]
        exact .silent rfl rfl rfl Iff.rfl fun _ handle => handle
      · rw [same]
        exact .silent rfl rfl rfl Iff.rfl fun _ handle => handle
  | announcing =>
      rw [stage] at stepped
      cases stepped
      obtain ⟨alone, unserved⟩ := paired stage
      exact .reconnected rfl rfl alone unserved rfl rfl rfl
  | exited =>
      rw [stage] at stepped
      cases stepped

theorem step_effect {c t : TcpClient} {action : Action} (stepped : c.step action = some t)
    (paired : c.Paired action) : Effect c t := by
  obtain ⟨-, acted⟩ := step_act stepped
  cases action with
  | connect | disconnect =>
      cases acted
      refine .silent rfl rfl ?_ Iff.rfl fun _ handle => handle
      exact List.countP_append
  | call i ok =>
      obtain ⟨call, c', next, found, advanced, rfl⟩ := stepCall_cases acted
      exact advance_effect found advanced paired
  | reconnect ok => exact reconnectLoop_effect acted paired
  | enterRecv =>
      obtain ⟨-, -, -, rfl⟩ := enterRecv_cases acted
      exact .silent rfl rfl rfl Iff.rfl fun _ handle => handle
  | read input action =>
      obtain ⟨running, -, reader, -, rfl⟩ := read_cases acted
      refine .silent rfl rfl rfl ?_ fun _ handle => handle
      rw [running]
      refine iff_of_true ?_ nofun
      unfold afterRead
      dsimp only
      split <;> exact nofun
  | settle =>
      obtain ⟨left, rfl⟩ := settle_cases acted
      refine .silent rfl rfl rfl ?_ fun _ handle => handle
      rw [left]
      exact iff_of_true nofun nofun
  | notify =>
      obtain ⟨settled, rfl⟩ := notify_cases acted
      refine .readerClosed rfl rfl paired rfl ?_ rfl
      rw [settled]
      exact nofun
  | enterSend =>
      obtain rfl := enterSend_cases acted
      exact .silent rfl rfl rfl Iff.rfl fun _ handle => handle
  | write action =>
      obtain ⟨writer, bytes, -, rfl⟩ := write_cases acted
      exact .silent rfl rfl rfl Iff.rfl fun _ handle => handle
  | send pkt =>
      obtain rfl := Option.some.inj acted
      obtain ⟨queue, frame⟩ := send_frame c (Protocol.encode pkt)
      rw [frame]
      exact .silent rfl rfl rfl Iff.rfl fun _ handle => handle
  | sendRaw data =>
      obtain rfl := Option.some.inj acted
      obtain ⟨queue, frame⟩ := send_frame c data
      rw [frame]
      exact .silent rfl rfl rfl Iff.rfl fun _ handle => handle

theorem step_kept (c : TcpClient) (action : Action) (t : TcpClient) (stepped : c.step action = some t)
    (paired : c.Paired action) (kept : Kept c) : Kept t := by
  have books := kept.books (step_act stepped).1
  have effect := step_effect stepped paired
  exact ⟨effect.alternating books kept.alternating, fun running => effect.books running books⟩

theorem callbacks_alternate {actions : List Action} {c : TcpClient} (run : exec step {} actions = some c)
    (paired : Respects Paired step {} actions) : Alternating c.log := by
  have initial : Kept {} := by
    refine ⟨?_, fun _ => ?_⟩
    · intro i notice found
      cases found
    · exact ⟨by simp [Served], by simp, by simp [waiting], Nat.zero_le 1, by simp⟩
  exact (exec_invariant_of_respects step_kept run paired initial).alternating

instance (c : TcpClient) : Decidable c.Served := inferInstanceAs (Decidable (_ ∧ _))

instance : ∀ (c : TcpClient) (action : Action), Decidable (c.Paired action)
  | _, .call _ _ => inferInstanceAs (Decidable ((_ → _ = _) ∧ (_ → _ = _)))
  | _, .reconnect _ => inferInstanceAs (Decidable (_ → _ ∧ ¬ _))
  | c, .notify => inferInstanceAs (Decidable (c.waiting = 0))
  | _, .connect | _, .disconnect | _, .enterRecv | _, .read _ _ | _, .settle | _, .enterSend | _, .write _
  | _, .send _ | _, .sendRaw _ => isTrue trivial

def pairedRun : List Action := connects ++ peerCloses ++ List.replicate 6 (.reconnect true) ++ disconnects

theorem pairedRun_alternates :
    ∃ c, exec step {} pairedRun = some c ∧ c.log = [.connected, .closed, .connected, .closed] ∧ Alternating c.log := by
  have paired : Respects Paired step {} pairedRun := by decide
  have completes : (exec step {} pairedRun).map log = some [.connected, .closed, .connected, .closed] := by decide
  obtain ⟨c, run, same⟩ := Option.map_eq_some_iff.mp completes
  exact ⟨c, run, same, callbacks_alternate run paired⟩

/-- `disconnect` closes once more what the read thread has closed, and the read thread may close before `connect`
has announced. -/
theorem callbacks_unpaired :
    (∃ c, exec step {} (connects ++ peerCloses ++ disconnects) = some c ∧
      c.log = [.connected, .closed, .closed] ∧ ¬ Alternating c.log) ∧
    ∃ c, exec step {} (connects.take 7 ++ peerCloses ++ connects.drop 7) = some c ∧
      c.log = [.closed, .connected] ∧ ¬ Alternating c.log := by
  constructor
  · refine ⟨_, rfl, rfl, fun alternating => ?_⟩
    cases alternating 2 .closed rfl
  · refine ⟨_, rfl, rfl, fun alternating => ?_⟩
    cases alternating 0 .closed rfl

end ServerFramework.Tcp.TcpClient
