import Mathlib.Data.List.Infix
import ServerFramework.Network.TcpConnection
import ServerFramework.Proof.Network.Packet

namespace ServerFramework.Tcp.TcpConnection.Outbox
open Protocol Library

def popped (s : Outbox) : Nat := s.accepted.length - s.writer.writeQueue.length

def Written (s : Outbox) (id : Nat) : Prop := (s.accepted.take (id + 1)).flatMap encode <+: s.out

def Queued (s : Outbox) (id : Nat) (pkt : Packet) : Prop :=
  s.popped ≤ id ∧ s.writer.writeQueue[id - s.popped]? = some (encode pkt)

def InHand (s : Outbox) (id : Nat) (pkt : Packet) : Prop :=
  id + 1 = s.popped ∧
    (s.writer.phase = .holding (encode pkt) ∨ ∃ sent, s.writer.phase = .sending (encode pkt) sent)

def ClosedAfter (s : Outbox) (id : Nat) : Prop := ∃ count, s.closedAt = some count ∧ id < count

/-- No accepted packet is lost without a close, `write_loop` only ends after one, and none is accepted then. -/
structure NothingDropped (s : Outbox) : Prop where
  kept : ∀ id pkt, s.accepted[id]? = some pkt →
    s.Written id ∨ (s.writer.phase ≠ .finished ∧ (s.Queued id pkt ∨ s.InHand id pkt)) ∨ s.ClosedAfter id
  running : s.writer.phase = .finished → s.writer.alive = false
  refused : ∀ call ∈ s.calls, call.1 = true → call.2 = false

/-- No `send_packet` on a closed connection, and no EAGAIN or hard error from `::send` on an open one. -/
def Undisturbed (s : Outbox) : Action → Prop
  | .sendPacket _ => s.writer.alive = true
  | .write (.send (.error e)) => e = .eintr ∨ s.writer.alive = false
  | _ => True

/-- What the writer of an open connection has taken: the packet in hand, and how many of its bytes are out. -/
inductive Hand : WritePhase → List Packet → List UInt8 → Prop
  | top : Hand .top [] []
  | waiting : Hand .waiting [] []
  | holding (pkt : Packet) : Hand (.holding (encode pkt)) [pkt] []
  | sending (pkt : Packet) (sent : Nat) : Hand (.sending (encode pkt) sent) [pkt] ((encode pkt).take sent)

structure Open (s : Outbox) (done hand waiting : List Packet) (bytes : List UInt8) : Prop where
  accepted : s.accepted = done ++ hand ++ waiting
  queue : s.writer.writeQueue = waiting.map encode
  hand : Hand s.writer.phase hand bytes
  out : s.out = done.flatMap encode ++ bytes

/-- An open connection has everything in its place; a closed one has accepted nothing since. -/
structure Sound (s : Outbox) : Prop where
  state : (s.writer.alive = true ∧ ∃ done hand waiting bytes, Open s done hand waiting bytes) ∨
    (s.writer.alive = false ∧ s.closedAt = some s.accepted.length)
  calls : ∀ call ∈ s.calls, call.1 = false

theorem Hand.busy {phase : WritePhase} {hand : List Packet} {bytes : List UInt8} (stage : Hand phase hand bytes)
    {i : Nat} {pkt : Packet} (held : hand[i]? = some pkt) :
    i = 0 ∧ hand.length = 1 ∧ (phase = .holding (encode pkt) ∨ ∃ sent, phase = .sending (encode pkt) sent) := by
  cases stage with
  | top => cases held
  | waiting => cases held
  | holding other =>
      cases i with
      | zero =>
          cases held
          exact ⟨rfl, rfl, .inl rfl⟩
      | succ i => cases held
  | sending other sent =>
      cases i with
      | zero =>
          cases held
          exact ⟨rfl, rfl, .inr ⟨sent, rfl⟩⟩
      | succ i => cases held

theorem Open.popped {s : Outbox} {done hand waiting : List Packet} {bytes : List UInt8}
    (placed : Open s done hand waiting bytes) : s.popped = done.length + hand.length := by
  rw [Outbox.popped, placed.accepted, placed.queue, List.length_append, List.length_append, List.length_map]
  omega

theorem Open.kept {s : Outbox} {done hand waiting : List Packet} {bytes : List UInt8}
    (placed : Open s done hand waiting bytes) {id : Nat} {pkt : Packet} (accepted : s.accepted[id]? = some pkt) :
    s.Written id ∨ (s.writer.phase ≠ .finished ∧ (s.Queued id pkt ∨ s.InHand id pkt)) := by
  have running : s.writer.phase ≠ .finished := by
    intro finished
    have stage := placed.hand
    rw [finished] at stage
    cases stage
  have count := placed.popped
  rw [placed.accepted] at accepted
  by_cases written : id < done.length
  · refine .inl ?_
    rw [Written, placed.accepted, List.append_assoc, List.take_append_of_le_length written, placed.out]
    have front := List.IsPrefix.flatMap (List.take_prefix (id + 1) done) encode
    exact front.trans (List.prefix_append _ _)
  refine .inr ⟨running, ?_⟩
  by_cases queued : done.length + hand.length ≤ id
  · refine .inl ⟨by rw [count]; exact queued, ?_⟩
    rw [List.getElem?_append_right (by rw [List.length_append]; exact queued), List.length_append] at accepted
    rw [placed.queue, List.getElem?_map, count, accepted]
    rfl
  · refine .inr ?_
    rw [List.getElem?_append_left (by rw [List.length_append]; omega),
      List.getElem?_append_right (Nat.le_of_not_lt written)] at accepted
    obtain ⟨first, only, phase⟩ := placed.hand.busy accepted
    exact ⟨by omega, phase⟩

theorem Sound.nothingDropped {s : Outbox} (sound : Sound s) : NothingDropped s := by
  obtain ⟨state, calls⟩ := sound
  refine ⟨?_, ?_, fun call member closed => ?_⟩
  · intro id pkt accepted
    rcases state with ⟨-, done, hand, waiting, bytes, placed⟩ | ⟨-, closedAt⟩
    · rcases placed.kept accepted with written | running
      · exact .inl written
      · exact .inr (.inl running)
    · obtain ⟨inside, -⟩ := List.getElem?_eq_some_iff.mp accepted
      exact .inr (.inr ⟨s.accepted.length, closedAt, inside⟩)
  · intro finished
    rcases state with ⟨-, done, hand, waiting, bytes, placed⟩ | ⟨closed, -⟩
    · have stage := placed.hand
      rw [finished] at stage
      cases stage
    · exact closed
  · rw [calls call member] at closed
    cases closed

theorem send_open {s : Outbox} {done waiting : List Packet} {pkt : Packet} {sent : Nat} {out : List UInt8}
    {w : WriteSide} {result : SendResult}
    (placed : Open s done [pkt] waiting ((encode pkt).take sent)) (alive : s.writer.alive = true)
    (phase : s.writer.phase = .sending (encode pkt) sent) (calm : s.Undisturbed (.write (.send result)))
    (stepped : writeLoop s.writer (.send result) = some (w, out)) :
    w.alive = true ∧ ∃ done' hand' waiting' bytes',
      Open { s with writer := w, out := s.out ++ out } done' hand' waiting' bytes' := by
  obtain ⟨accepted, queue, stage, written⟩ := placed
  cases result with
  | error e =>
      obtain rfl : e = .eintr := by
        rcases calm with interrupted | closed
        · exact interrupted
        · rw [alive] at closed
          cases closed
      obtain ⟨rfl, rfl⟩ : s.writer = w ∧ [] = out := by simpa [writeLoop, phase] using stepped
      exact ⟨alive, done, [pkt], waiting, (encode pkt).take sent, accepted, queue, stage, by simpa using written⟩
  | sent n =>
      simp only [writeLoop, phase] at stepped
      split at stepped
      · obtain ⟨rfl, rfl⟩ : s.writer.advance (encode pkt) (sent + n) = w ∧
            ((encode pkt).drop sent).take n = out := by simpa using stepped
        refine ⟨alive, ?_⟩
        have bytes : s.out ++ ((encode pkt).drop sent).take n =
            done.flatMap encode ++ (encode pkt).take (sent + n) := by
          rw [written, List.append_assoc, List.take_add]
        by_cases more : sent + n < (encode pkt).length
        · refine ⟨done, [pkt], waiting, _, accepted, queue, ?_, bytes⟩
          simp only [WriteSide.advance, if_pos more]
          exact .sending pkt (sent + n)
        · refine ⟨done ++ [pkt], [], waiting, [], by simpa using accepted, queue, ?_, ?_⟩
          · simp only [WriteSide.advance, if_neg more]
            exact .top
          · rw [List.take_of_length_le (Nat.le_of_not_lt more)] at bytes
            simpa using bytes
      · cases stepped

theorem write_open {s : Outbox} {done hand waiting : List Packet} {bytes out : List UInt8} {w : WriteSide}
    {action : WriteAction} (placed : Open s done hand waiting bytes) (alive : s.writer.alive = true)
    (calm : s.Undisturbed (.write action)) (stepped : writeLoop s.writer action = some (w, out)) :
    w.alive = true ∧ ∃ done' hand' waiting' bytes',
      Open { s with writer := w, out := s.out ++ out } done' hand' waiting' bytes' := by
  obtain ⟨accepted, queue, stage, written⟩ := placed
  cases phase : s.writer.phase with
  | top =>
      rw [phase] at stage
      cases stage
      cases action with
      | send result => simp [writeLoop, phase] at stepped
      | run =>
          obtain ⟨rfl, rfl⟩ : s.writer.check = w ∧ [] = out := by simpa [writeLoop, phase] using stepped
          refine ⟨alive, done, [], waiting, [], accepted, queue, ?_, by simpa using written⟩
          simpa [WriteSide.check, alive] using Hand.waiting
  | waiting =>
      rw [phase] at stage
      cases stage
      cases action with
      | send result => simp [writeLoop, phase] at stepped
      | run =>
          obtain ⟨rfl, rfl⟩ : s.writer.take = w ∧ [] = out := by simpa [writeLoop, phase] using stepped
          cases waiting with
          | nil =>
              have none : s.writer.take = { s.writer with phase := .top } := by
                simp [WriteSide.take, queue, alive]
              rw [none]
              exact ⟨alive, done, [], [], [], accepted, queue, .top, by simpa using written⟩
          | cons pkt waiting =>
              have first : s.writer.take =
                  { s.writer with writeQueue := waiting.map encode, phase := .holding (encode pkt) } := by
                simp [WriteSide.take, queue]
              rw [first]
              exact ⟨alive, done, [pkt], waiting, [], by simpa using accepted, rfl, .holding pkt, by simpa using written⟩
  | holding msg =>
      rw [phase] at stage
      cases stage with
      | holding pkt =>
          have full : (encode pkt).isEmpty = false := by
            simp [← List.length_eq_zero_iff]
          cases action with
          | send result => simp [writeLoop, phase] at stepped
          | run =>
              obtain ⟨rfl, rfl⟩ : { s.writer with phase := .sending (encode pkt) 0 } = w ∧ [] = out := by
                simpa [writeLoop, phase, full, alive] using stepped
              exact ⟨alive, done, [pkt], waiting, [], accepted, queue, .sending pkt 0, by simpa using written⟩
  | sending msg sent =>
      rw [phase] at stage
      cases stage with
      | sending pkt =>
          cases action with
          | run => simp [writeLoop, phase] at stepped
          | send result =>
              exact send_open ⟨accepted, queue, by rw [phase]; exact .sending pkt sent, written⟩ alive phase calm stepped
  | finished =>
      rw [phase] at stage
      cases stage

theorem writeLoop_alive {w w' : WriteSide} {action : WriteAction} {out : List UInt8}
    (stepped : writeLoop w action = some (w', out)) : w'.alive = w.alive := by
  unfold writeLoop at stepped
  split at stepped
  · split at stepped
    · cases stepped
      rfl
    · cases stepped
      unfold WriteSide.take
      split <;> rfl
    · split at stepped
      · cases stepped
        rfl
      · split at stepped <;> cases stepped <;> rfl
    · cases stepped
  · split at stepped
    · split at stepped
      · split at stepped <;> cases stepped
        rfl
      · cases stepped
        rfl
      · cases stepped
        rfl
    · cases stepped

theorem step_sound (s : Outbox) (action : Action) (t : Outbox) (stepped : s.step action = some t)
    (calm : s.Undisturbed action) (sound : Sound s) : Sound t := by
  obtain ⟨state, calls⟩ := sound
  cases action with
  | sendPacket pkt =>
      obtain rfl := Option.some.inj stepped
      have alive : s.writer.alive = true := calm
      rcases state with ⟨-, done, hand, waiting, bytes, placed⟩ | ⟨closed, -⟩
      · refine ⟨.inl ⟨alive, done, hand, waiting ++ [pkt], bytes, ?_, ?_, placed.hand, placed.out⟩, ?_⟩
        · simp [push, sendPacket, placed.accepted]
        · simp [push, sendPacket, WriteSide.push, placed.queue]
        · simpa [push, alive] using calls
      · rw [alive] at closed
        cases closed
  | close =>
      obtain rfl := Option.some.inj stepped
      unfold close
      split
      · exact ⟨.inr ⟨rfl, rfl⟩, calls⟩
      · exact ⟨state, calls⟩
  | write action =>
      obtain ⟨⟨w, out⟩, written, rfl⟩ := Option.map_eq_some_iff.mp stepped
      refine ⟨?_, calls⟩
      rcases state with ⟨alive, done, hand, waiting, bytes, placed⟩ | ⟨closed, closedAt⟩
      · exact .inl (write_open placed alive calm written)
      · exact .inr ⟨(writeLoop_alive written).trans closed, closedAt⟩

theorem writeLoop_error {w w' : WriteSide} {e : Errno} {out : List UInt8} (hard : e ≠ .eintr)
    (stepped : writeLoop w (.send (.error e)) = some (w', out)) : w'.phase = .finished := by
  cases phase : w.phase with
  | sending msg sent =>
      cases e with
      | eintr => exact absurd rfl hard
      | zero | eagain | other =>
          simp only [writeLoop, phase] at stepped
          cases stepped
          rfl
  | _ => simp [writeLoop, phase] at stepped

theorem visible (s : Outbox) (action : Action) (t : Outbox) (stepped : s.step action = some t) (_ : Sound s)
    (nothing : NothingDropped t) : s.Undisturbed action := by
  cases action with
  | close => trivial
  | sendPacket pkt =>
      obtain rfl := Option.some.inj stepped
      cases alive : s.writer.alive with
      | true => exact alive
      | false =>
          have returned := nothing.refused (true, true) (by simp [push, sendPacket, alive]) rfl
          cases returned
  | write action =>
      obtain ⟨⟨w, out⟩, written, rfl⟩ := Option.map_eq_some_iff.mp stepped
      cases action with
      | run => trivial
      | send result =>
          cases result with
          | sent n => trivial
          | error e =>
              by_cases interrupted : e = .eintr
              · exact .inl interrupted
              · have ended : w.phase = .finished := writeLoop_error interrupted written
                exact .inr ((writeLoop_alive written).symm.trans (nothing.running ended))

theorem nothing_dropped_iff {actions : List Action} {s : Outbox} (run : exec step {} actions = some s) :
    (∀ n t, exec step {} (actions.take n) = some t → NothingDropped t) ↔ Respects Undisturbed step {} actions := by
  apply always_iff_respects step_sound (fun _ sound => sound.nothingDropped) visible run
  exact ⟨.inl ⟨rfl, [], [], [], [], rfl, rfl, .top, rfl⟩, by simp⟩

def calmRun : List Action :=
  [.sendPacket ⟨7, []⟩, .write .run, .write .run, .write .run, .write (.send (.sent 2)),
    .write (.send (.error .eintr)), .write (.send (.sent 4)), .close, .write .run]

theorem calmRun_respects : Respects Undisturbed step {} calmRun := by
  simp [calmRun, Respects, Undisturbed, step, push, close, sendPacket, writeLoop]

theorem nothing_dropped_in_calmRun :
    (exec step {} calmRun).isSome ∧ ∀ n t, exec step {} (calmRun.take n) = some t → NothingDropped t := by
  have completes : (exec step {} calmRun).isSome := rfl
  obtain ⟨s, run⟩ := Option.isSome_iff_exists.mp completes
  exact ⟨completes, (nothing_dropped_iff run).mpr calmRun_respects⟩

/-- A full socket buffer ends `write_loop` on an open connection, and a closed one still accepts packets. -/
theorem packets_dropped :
    (∃ t, exec step {} [.sendPacket ⟨7, []⟩, .write .run, .write .run, .write .run,
      .write (.send (.error .eagain)), .sendPacket ⟨8, []⟩] = some t ∧ t.writer.phase = .finished ∧
      t.writer.alive = true ∧ t.writer.writeQueue = [encode ⟨8, []⟩] ∧ ¬ NothingDropped t) ∧
    ∃ t, exec step {} [.close, .sendPacket ⟨7, []⟩] = some t ∧ t.calls = [(true, true)] ∧ ¬ NothingDropped t := by
  constructor
  · refine ⟨_, rfl, rfl, rfl, rfl, fun nothing => ?_⟩
    cases nothing.running rfl
  · refine ⟨_, rfl, rfl, fun nothing => ?_⟩
    cases nothing.refused (true, true) (List.mem_singleton.mpr rfl) rfl

end ServerFramework.Tcp.TcpConnection.Outbox
