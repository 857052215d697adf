import ServerFramework.Proof.Core.OneWorker
import ServerFramework.Proof.Example.GatewayAnswers

namespace ServerFramework.Example
open Protocol Tcp ServerFramework.Core Business Library

namespace Gateway

variable {n : Nat}

/-! ## At most one worker -/

/-- The one task that is started and not answered is the one that the worker routes. -/
structure Ordered (g : Gateway n) : Prop where
  accounted : Accounted g
  inOrder : ∃ hand, ThreadPool.InOrder g.pool hand
  routed : ∃ routed : Option Nat, g.answered ++ routed.toList = g.pool.started ∧ ∀ i, g.routing i = routed

theorem update_routing (one : n ≤ 1) (routing : Fin n → Option Nat) (i : Fin n) (routed : Option Nat) (j : Fin n) :
    Function.update routing i routed j = routed := by
  obtain rfl : j = i := Fin.ext (by omega)
  rw [Function.update_self]

theorem answer_routed {g : Gateway n} (one : n ≤ 1) (i : Fin n)
    (routed : ∃ routed : Option Nat, g.answered ++ routed.toList = g.pool.started ∧ ∀ i, g.routing i = routed) :
    ∃ routed : Option Nat, (g.answer i).answered ++ routed.toList = g.pool.started ∧
      ∀ j, (g.answer i).routing j = routed := by
  obtain ⟨routed, line, same⟩ := routed
  refine ⟨none, ?_, update_routing one g.routing i none⟩
  rw [Option.toList_none, List.append_nil, answer, same i]
  exact line

theorem execute_routed {g : Gateway n} (one : n ≤ 1) (accounted : Accounted g) {i : Fin n} {task : Task}
    {pool : ThreadPool n} (holding : g.pool.workers i = .holding task)
    (stepped : ThreadPool.step .shutdown g.pool (.execute i) = some pool)
    (routed : ∃ routed : Option Nat, g.answered ++ routed.toList = g.pool.started ∧ ∀ i, g.routing i = routed) :
    ∃ routed : Option Nat, g.answered ++ routed.toList = pool.started ∧
      ∀ j, Function.update g.routing i (some task.ticket) j = routed := by
  obtain ⟨routed, line, same⟩ := routed
  refine ⟨some task.ticket, ?_, update_routing one g.routing i (some task.ticket)⟩
  have idle : g.routing i = none := by
    have linked := accounted.linked i
    rw [holding] at linked
    generalize g.routing i = routing at linked
    generalize g.router.phases i = phase at linked
    cases linked with
    | idle => rfl
  rw [← same i, idle, Option.toList_none, List.append_nil] at line
  cases ThreadPool.step_effect stepped with
  | @execute _ other there =>
      obtain rfl : task = other := Worker.holding.inj (holding.symm.trans there)
      rw [line, Option.toList_some]

theorem step_ordered {g next : Gateway n} {action : Action n} (one : n ≤ 1) (stepped : g.step action = some next)
    (ordered : Ordered g) : Ordered next := by
  have later := step_accounted stepped ordered.accounted
  have inOrder := ordered.inOrder
  have routed := ordered.routed
  cases step_effect stepped ordered.accounted.net.registry ordered.accounted.listening with
  | net | message | entered | unlock => exact ⟨later, inOrder, routed⟩
  | append _ moved =>
      refine ⟨later, ThreadPool.step_inOrder one moved ?_ inOrder, ?_⟩
      · rintro priority same
        obtain rfl := ThreadPool.Action.append.inj same
        decide
      · cases ThreadPool.step_effect moved with
        | append => exact routed
  | pool _ plain _ _ moved =>
      refine ⟨later, ThreadPool.step_inOrder one moved ?_ inOrder, ?_⟩
      · exact fun priority same => absurd same (plain.1 priority)
      · rw [(plain_started moved plain).1]
        exact routed
  | execute holding _ moved _ =>
      refine ⟨later, ThreadPool.step_inOrder one moved ?_ inOrder, ?_⟩
      · exact fun priority same => by cases same
      · exact execute_routed one ordered.accounted holding moved routed
  | missed | sent | noted => exact ⟨later, inOrder, answer_routed one _ routed⟩

theorem exec_ordered {g : Gateway n} (one : n ≤ 1) {actions : List (Action n)} (ran : exec step {} actions = some g) :
    Ordered g :=
  exec_invariant (fun _ _ _ stepped ordered => step_ordered one stepped ordered) ran
    ⟨initial_accounted, ⟨[], ThreadPool.initial_inOrder⟩, ⟨none, rfl, fun _ => rfl⟩⟩

theorem Ordered.answered_front {g : Gateway n} (ordered : Ordered g) : g.answered <+: List.range g.jobs.length := by
  obtain ⟨hand, inOrder⟩ := ordered.inOrder
  obtain ⟨routed, line, -⟩ := ordered.routed
  have started := inOrder.started_front
  rw [← line, ← ordered.accounted.jobs] at started
  exact (List.prefix_append _ _).trans started

theorem Ordered.replies_front {g : Gateway n} (ordered : Ordered g) (p : Nat) :
    g.replies (p + 1) <+: (g.messages p).filterMap reply := by
  have front : g.repliesOf (p + 1) g.answered <+: g.repliesOf (p + 1) (List.range g.jobs.length) :=
    ordered.answered_front.filterMap _
  rw [jobs_repliesOf] at front
  rw [ordered.accounted.replies_eq]
  exact front.trans (jobsOf_replies ordered.accounted p)

theorem Ordered.out_front {g : Gateway n} (ordered : Ordered g) {p : Nat} {c : Connection}
    (here : g.net.server.made[p]? = some c) : g.net.out p <+: (c.reader.delivered.filterMap reply).flatMap encode := by
  obtain ⟨queued, front, frames, -⟩ := ordered.accounted.frames here
  have out := (ordered.accounted.net.piped p c here).front
  have messages := ordered.replies_front p
  rw [frames, ← List.flatMap_def] at out
  simp only [messages_eq, TcpServer.delivered, here] at messages
  exact out.trans ((front.trans messages).flatMap encode)

/-! ## Two workers -/

/-- One client sends a login and then some data, and has the answer to the data. -/
def sockets : List TcpServer.Action :=
  [.start, .accept, .begin 0, .read 0 [] .run,
    .read 0 (encode ⟨cmdLogin, []⟩ ++ encode ⟨cmdData, [7]⟩) (.recv (.chunk 13)), .read 0 [] .run, .read 0 [] .run,
    .sendTo 1 ⟨cmdData, [7]⟩, .write 0 .run, .write 0 .run, .write 0 .run, .write 0 (.send (.sent 4))]

def idleNet : Traffic := { server := { handlers := ⟨true, true, true⟩ } }

def after (k : Nat) : Traffic := (exec Traffic.step idleNet (sockets.take k)).getD idleNet

theorem exec_after (k : Nat) : exec Traffic.step idleNet (sockets.take k) = some (after k) := by
  have whole : (exec Traffic.step idleNet sockets).isSome = true := rfl
  obtain ⟨last, ran⟩ := Option.isSome_iff_exists.mp whole
  rw [← List.take_append_drop k sockets, exec_append] at ran
  obtain ⟨middle, first, -⟩ := Option.bind_eq_some_iff.mp ran
  rw [after, first, Option.getD_some]

theorem step_after {k : Nat} {action : TcpServer.Action} (here : sockets[k]? = some action) :
    (after k).step action = some (after (k + 1)) := by
  have longer := exec_after (k + 1)
  rw [List.take_add_one, here, Option.toList_some, exec_snoc] at longer
  obtain ⟨middle, first, second⟩ := longer
  rw [exec_after k] at first
  rwa [Option.some.inj first]

def Reaches (g h : Gateway n) : Prop := Relation.ReflTransGen (fun g h => ∃ action, g.step action = some h) g h

theorem reaches_net (k : Nat) (g : Gateway n) {action : TcpServer.Action} (next : sockets[k]? = some action)
    (outside : external action = true) (idle : g.pending = ∅) (log : List (Int × Callback))
    (logged : (after (k + 1)).server.log = (after k).server.log ++ log) :
    Reaches { g with net := after k } (log.foldl (callback (reader action) 0) { g with net := after (k + 1) }) := by
  refine .single ⟨.net action 0, ?_⟩
  have moved := step_after next
  have nobody : ((reader action).bind fun p => g.pending.lookup p) = none := by
    cases reader action <;> simp [idle]
  rw [step, onNet, if_pos ⟨outside, nobody⟩, moved, Option.map_some, logged, List.drop_left]

theorem reaches_quiet (k : Nat) (g : Gateway n) {action : TcpServer.Action} (next : sockets[k]? = some action)
    (outside : external action = true) (idle : g.pending = ∅)
    (logged : (after (k + 1)).server.log = (after k).server.log) :
    Reaches { g with net := after k } { g with net := after (k + 1) } :=
  reaches_net k g next outside idle [] (by rw [logged, List.append_nil])

def queuedLogin : Gateway n where
  net := after 6
  pool := { tasks := [⟨0, .normal⟩], notifications := 1, submitted := 1 }
  jobs := [⟨1, ⟨cmdLogin, []⟩⟩]

/-- The reader has passed both messages on. -/
def queuedBoth : Gateway n where
  net := after 7
  pool := { tasks := [⟨0, .normal⟩, ⟨1, .normal⟩], notifications := 2, submitted := 2 }
  jobs := [⟨1, ⟨cmdLogin, []⟩⟩, ⟨1, ⟨cmdData, [7]⟩⟩]

theorem reaches_queuedBoth : Reaches ({} : Gateway n) queuedBoth := by
  have accepted : Reaches ({} : Gateway n) { net := after 3 } :=
    ((reaches_quiet 0 {} rfl rfl rfl rfl).trans (reaches_quiet 1 {} rfl rfl rfl rfl)).trans
      (reaches_quiet 2 {} rfl rfl rfl rfl)
  have chunk : Reaches ({ net := after 3 } : Gateway n) { net := after 5 } :=
    (reaches_quiet 3 {} rfl rfl rfl rfl).trans (reaches_quiet 4 {} rfl rfl rfl rfl)
  have login : Reaches ({ net := after 5 } : Gateway n) queuedLogin :=
    (reaches_net 5 {} rfl rfl rfl [(1, .message ⟨cmdLogin, []⟩)] rfl).tail ⟨.append 0, rfl⟩
  have data : Reaches (queuedLogin : Gateway n) queuedBoth :=
    (reaches_net 6 queuedLogin rfl rfl rfl [(1, .message ⟨cmdData, [7]⟩)] rfl).tail ⟨.append 0, rfl⟩
  exact (accepted.trans chunk).trans (login.trans data)

/-- Each worker has taken a message, and the second message is in its handler. -/
theorem reaches_taken (two : 1 < n) : ∃ g : Gateway n, Reaches queuedBoth g ∧ g.net = after 7 ∧ g.pending = ∅ ∧
    g.router.phases ⟨1, two⟩ = .calling .data 1 ⟨cmdData, [7]⟩ := by
  let i : Fin n := ⟨0, by omega⟩
  let j : Fin n := ⟨1, two⟩
  have first := (((Relation.ReflTransGen.single ⟨.worker (.acquire i), rfl⟩ : Reaches (queuedBoth : Gateway n) _).tail
    ⟨.worker (.evaluate i), rfl⟩).tail ⟨.worker (.take i), rfl⟩).tail ⟨.execute i, rfl⟩
  have second := (((first.tail ⟨.worker (.acquire j), rfl⟩).tail ⟨.worker (.evaluate j), rfl⟩).tail
    ⟨.worker (.take j), rfl⟩).tail ⟨.execute j, rfl⟩
  exact ⟨_, second.tail ⟨.enter j, rfl⟩, rfl, rfl, rfl⟩

theorem reaches_sent {g : Gateway n} {i : Fin n} (here : g.net = after 7)
    (calling : g.router.phases i = .calling .data 1 ⟨cmdData, [7]⟩) :
    Reaches g { g.answer i with router := g.router.setPhase i .called, net := after 8 } := by
  have moved : (after 7).step (.sendTo 1 ⟨cmdData, [7]⟩) = some (after 8) := step_after rfl
  refine .single ⟨.handle i, ?_⟩
  simp only [step, handle, calling, Router.step, Option.bind_some, callHandler, handleData, answer, here, moved]
  rfl

theorem reaches_written (g : Gateway n) (idle : g.pending = ∅) :
    Reaches { g with net := after 8 } { g with net := after 12 } := by
  have taken : Reaches { g with net := after 8 } { g with net := after 10 } :=
    (reaches_quiet 8 g rfl rfl idle rfl).trans (reaches_quiet 9 g rfl rfl idle rfl)
  have written : Reaches { g with net := after 10 } { g with net := after 12 } :=
    (reaches_quiet 10 g rfl rfl idle rfl).trans (reaches_quiet 11 g rfl rfl idle rfl)
  exact taken.trans written

theorem exec_overtaken (two : 1 < n) : ∃ actions, ∃ g : Gateway n, exec step {} actions = some g ∧ g.net = after 12 := by
  obtain ⟨g, taken, here, idle, calling⟩ := reaches_taken two
  have sent := reaches_sent here calling
  have written := reaches_written { g.answer ⟨1, two⟩ with router := g.router.setPhase ⟨1, two⟩ .called } idle
  obtain ⟨actions, ran⟩ := exists_exec (reaches_queuedBoth.trans (taken.trans (sent.trans written)))
  exact ⟨actions, _, ran, rfl⟩

theorem out_overtaken : ∃ c, (after 12).server.made[0]? = some c ∧
    ¬ (after 12).out 0 <+: (c.reader.delivered.filterMap reply).flatMap encode := by
  obtain ⟨c, here, messages⟩ : ∃ c, (after 12).server.made[0]? = some c ∧
      c.reader.delivered = [⟨cmdLogin, []⟩, ⟨cmdData, [7]⟩] := ⟨_, rfl, rfl⟩
  have out : (after 12).out 0 = [0, 0, 0, 7] := rfl
  refine ⟨c, here, ?_⟩
  rw [out, messages]
  decide

/-! ## The order of the answers -/

/-- What the `write_loop` of a connection hands on are the answers to its messages in their order under every schedule
exactly when the pool has no two workers. -/
theorem gateway_in_order_iff :
    (∀ (actions : List (Action n)) (g : Gateway n), exec step {} actions = some g →
      ∀ p c, g.net.server.made[p]? = some c →
        g.net.out p <+: (c.reader.delivered.filterMap reply).flatMap encode) ↔ n ≤ 1 := by
  constructor
  · intro always
    by_contra many
    obtain ⟨actions, g, ran, net⟩ := exec_overtaken (Nat.lt_of_not_le many)
    obtain ⟨c, here, wrong⟩ := out_overtaken
    rw [← net] at here wrong
    exact wrong (always actions g ran 0 c here)
  · intro one actions g ran p c here
    exact (exec_ordered one ran).out_front here

end Gateway

end ServerFramework.Example
