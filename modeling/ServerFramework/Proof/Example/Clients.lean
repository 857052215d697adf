import ServerFramework.Example.Clients
import ServerFramework.Proof.Example.GatewayDrains
import ServerFramework.Proof.Example.GatewayOrder
import ServerFramework.Proof.Network.Ends
import ServerFramework.Proof.Network.Link

namespace ServerFramework.Example
open Protocol Tcp ServerFramework.Core Business Library

variable {n : Nat}

/-! ## What the gateway does to the sockets -/

namespace Gateway

inductive Sockets (g : Gateway n) : Action n → Traffic → Prop
  | net {request : TcpServer.Action} {tick : UInt64} {net : Traffic} (moved : g.net.step request = some net) :
      Sockets g (.net request tick) net
  | other {action : Action n} {request : TcpServer.Action} {net : Traffic} (moved : g.net.step request = some net)
      (quiet : ∀ p input read, request ≠ .read p input read) (inside : ∀ request tick, action ≠ .net request tick) :
      Sockets g action net
  | still {action : Action n} (inside : ∀ request tick, action ≠ .net request tick) : Sockets g action g.net

theorem foldl_callback_net (reader : Option Nat) (tick : UInt64) (log : List (Int × Callback)) (g : Gateway n) :
    (log.foldl (callback reader tick) g).net = g.net := by
  induction log generalizing g with
  | nil => rfl
  | cons entry log ih =>
      rw [List.foldl_cons, ih]
      obtain ⟨sid, called⟩ := entry
      cases called with
      | connected | closed => rfl
      | message pkt => cases reader <;> rfl

theorem step_sockets {g next : Gateway n} {action : Action n} (stepped : g.step action = some next) :
    Sockets g action next.net := by
  cases action with
  | net request tick =>
      simp only [step, onNet, Option.ite_none_right_eq_some] at stepped
      obtain ⟨net, moved, rfl⟩ := Option.map_eq_some_iff.mp stepped.2
      rw [foldl_callback_net]
      exact .net moved
  | handle i =>
      cases handle_effect stepped with
      | sent _ _ _ sends => exact .other sends (by simp) (by simp)
      | noted => exact .still (by simp)
      | net outside | message outside => cases outside
      | pool => exact .still (by simp)
  | signal =>
      rw [step] at stepped
      obtain ⟨net, moved, rfl⟩ := Option.map_eq_some_iff.mp stepped
      exact .other moved (by simp) (by simp)
  | append p =>
      obtain ⟨job, -, rest⟩ := Option.bind_eq_some_iff.mp stepped
      obtain ⟨pool, -, rfl⟩ := Option.map_eq_some_iff.mp rest
      exact .still (by simp)
  | worker request | shutdown request =>
      simp only [step, Option.ite_none_right_eq_some] at stepped
      obtain ⟨pool, -, rfl⟩ := Option.map_eq_some_iff.mp stepped.2
      exact .still (by simp)
  | execute i =>
      simp only [step, execute] at stepped
      split at stepped
      · obtain ⟨job, -, rest⟩ := Option.bind_eq_some_iff.mp stepped
        obtain ⟨pool, -, rest⟩ := Option.bind_eq_some_iff.mp rest
        obtain ⟨router, -, rfl⟩ := Option.map_eq_some_iff.mp rest
        exact .still (by simp)
      · cases stepped
  | enter i =>
      obtain ⟨router, -, rfl⟩ := Option.map_eq_some_iff.mp stepped
      dsimp only
      split
      · exact .still (by simp)
      · exact .still (by simp)
  | unlock i =>
      obtain ⟨router, -, rfl⟩ := Option.map_eq_some_iff.mp stepped
      exact .still (by simp)
  | finish i =>
      simp only [step] at stepped
      split at stepped
      · obtain ⟨pool, -, rfl⟩ := Option.map_eq_some_iff.mp stepped
        exact .still (by simp)
      · cases stepped

theorem reply_small {pkt answer : Packet} (small : (encode pkt).length < 2 ^ 31) (answers : reply pkt = some answer) :
    (encode answer).length < 2 ^ 31 := by
  rw [reply] at answers
  split at answers
  · obtain rfl := Option.some.inj answers
    decide
  · split at answers
    · obtain rfl := Option.some.inj answers
      rw [encode_length] at small ⊢
      exact small
    · cases answers

end Gateway

namespace Clients

/-! ## The two directions of a connection -/

def upward (s : Clients n) (p : Nat) : Link Packet where
  enqueued := (s.client p).asked
  writer := (s.client p).writer
  channel := (s.client p).up
  reader := s.gateway.net.server.readerAt p

def downward (s : Clients n) (p : Nat) (sent : List Packet) : Link (List UInt8) where
  enqueued := sent
  writer := s.gateway.net.server.writerAt p
  channel := (s.client p).down
  reader := (s.client p).reader

structure Joined (s : Clients n) : Prop where
  accounted : Gateway.Accounted s.gateway
  upward : ∀ p, (s.upward p).Invariant packetFraming
  downward : ∀ p, ∃ sent, s.gateway.net.frames p = sent.map encode ∧ (s.downward p sent).Invariant messageFraming

theorem initial_joined : Joined ({} : Clients n) where
  accounted := Gateway.initial_accounted
  upward _ := initial_invariant
  downward _ := ⟨[], rfl, initial_invariant⟩

theorem delivered_front {μ : Type} {F : Framing Fault Packet UInt8 μ} {s : Link μ} (inv : s.Invariant F) :
    s.reader.delivered <+: s.enqueued.map F.view := by
  obtain ⟨done, todo, lost, split, delivered, -, -⟩ := inv.conserved
  rw [delivered, split, List.map_append]
  exact List.prefix_append _ _

theorem reader_alive {μ : Type} {F : Framing Fault Packet UInt8 μ} {s : Link μ} (inv : s.Invariant F) (alive : Bool) :
    Link.Invariant F { s with reader := { s.reader with alive } } :=
  { inv with conserved := inv.conserved }

theorem writer_alive {μ : Type} {F : Framing Fault Packet UInt8 μ} {s : Link μ} (inv : s.Invariant F) {alive : Bool}
    (halted : WriteSide.Halted { s.writer with alive }) :
    Link.Invariant F { s with writer := { s.writer with alive } } :=
  { inv with halted, conserved := inv.conserved }

theorem delivered_enqueued {s : Link Packet} (inv : s.Invariant packetFraming) : s.reader.delivered <+: s.enqueued := by
  have front := delivered_front inv
  rwa [show (packetFraming.view : Packet → Packet) = id from rfl, List.map_id] at front

theorem messages_readerAt (g : Gateway n) (p : Nat) : g.messages p = (g.net.server.readerAt p).delivered := by
  rw [Gateway.messages, TcpServer.readerAt]
  cases g.net.server.made[p]? <;> rfl

/-! ## A step of the gateway -/

theorem readLoop_left {r r' : ReadSide Packet} {input left : List UInt8} {request : ReadAction}
    (moved : TcpConnection.readLoop r input request = some (r', left)) {p : Nat} {tick : UInt64} :
    left = input.drop (received p (.net (.read p input request) tick : Gateway.Action n)) := by
  cases request with
  | run =>
      simp only [TcpConnection.readLoop] at moved
      split at moved <;> cases moved <;> rfl
  | recv result =>
      simp only [TcpConnection.readLoop] at moved
      split at moved
      · split at moved
        · rw [ReadSide.receive, Option.ite_none_right_eq_some] at moved
          cases moved.2
          simp [received]
        · cases moved
          rfl
        · cases moved
          rfl
      · cases moved

theorem received_other {action : Gateway.Action n} {p : Nat}
    (other : ∀ input read tick, action ≠ .net (.read p input read) tick) : received p action = 0 := by
  unfold received
  split
  · rename_i q input count tick
    rw [if_neg]
    rintro rfl
    exact other _ _ _ rfl
  · rfl

theorem upward_step {s : Clients n} {action : Gateway.Action n} {net : Traffic} (supplied : s.supplied action = true)
    (sockets : Gateway.Sockets s.gateway action net) {p : Nat} (inv : (s.upward p).Invariant packetFraming) :
    Link.Invariant packetFraming { s.upward p with
      channel := (s.client p).up.drop (received p action)
      reader := net.server.readerAt p } := by
  have still (alive : Bool) (other : ∀ input read tick, action ≠ .net (.read p input read) tick) :
      Link.Invariant packetFraming { s.upward p with
        channel := (s.client p).up.drop (received p action)
        reader := { s.gateway.net.server.readerAt p with alive } } := by
    rw [received_other other, List.drop_zero]
    exact reader_alive inv alive
  cases sockets with
  | @net request tick net moved =>
      have draw := TcpServer.step_draw (Traffic.step_stepped moved).server p
      generalize net.server.readerAt p = reader at draw ⊢
      cases draw with
      | rest alive other => exact still alive (by simpa using other)
      | @read input left read reader moved =>
          obtain rfl : input = (s.client p).up := by simpa [Clients.supplied] using supplied
          rw [← readLoop_left moved]
          exact read_invariant connection_readLaw moved inv
  | @other action request net moved quiet inside =>
      have draw := TcpServer.step_draw (Traffic.step_stepped moved).server p
      generalize net.server.readerAt p = reader at draw ⊢
      cases draw with
      | rest alive => exact still alive fun input read tick => inside _ _
      | read => exact absurd rfl (quiet _ _ _)
  | still inside => exact still _ fun input read tick => inside _ _

theorem turn_step {g : Gateway n} (accounted : Gateway.Accounted g) {action : Gateway.Action n} {net : Traffic}
    (sockets : Gateway.Sockets g action net) (p : Nat) :
    ∃ sends : List (Option Int × Packet), net.calls = g.net.calls ++ sends ∧
      Traffic.Turn (g.net.server.writerAt p) (g.net.frames p) (g.net.out p) (sends.filterMap (addressed (p + 1)))
        (net.server.writerAt p) (net.frames p) (net.out p) := by
  cases sockets with
  | net moved | other moved =>
      have stepped := Traffic.step_stepped moved
      exact ⟨_, stepped.calls, stepped.turn accounted.net p⟩
  | still => exact ⟨[], (List.append_nil _).symm, .rest _⟩

theorem sent_small {s : Clients n} {gateway : Gateway n} (accounted : Gateway.Accounted gateway) {p : Nat}
    {sends : List (Option Int × Packet)} (calls : gateway.net.calls = s.gateway.net.calls ++ sends) {pkt : Packet}
    (sent : sends.filterMap (addressed (p + 1)) = [encode pkt])
    (small : ∀ pkt ∈ gateway.messages p, (encode pkt).length < 2 ^ 31) : (encode pkt).length < 2 ^ 31 := by
  have listed : encode pkt ∈ sends.filterMap (addressed (p + 1)) := by simp [sent]
  obtain ⟨call, member, framed⟩ := List.mem_filterMap.mp listed
  obtain ⟨job, among, session, answers⟩ := accounted.call_job (calls ▸ List.mem_append_right _ member)
  simp only [addressed, session, Option.ite_none_right_eq_some, Option.some.injEq, reduceCtorEq, false_or] at framed
  obtain ⟨own, same⟩ := framed
  have read : job.pkt ∈ gateway.messages p := by
    rw [← accounted.read p, Gateway.jobsOf]
    exact List.mem_append_left _ (List.mem_map_of_mem (List.mem_filter.mpr ⟨among, by simpa using own⟩))
  rw [← same]
  exact Gateway.reply_small (small job.pkt read) answers

theorem downward_step {s : Clients n} {p : Nat} {sent : List Packet} {sends : List (List UInt8)} {writer : WriteSide}
    {frames : List (List UInt8)} {out : List UInt8}
    (turn : Traffic.Turn (s.gateway.net.server.writerAt p) (s.gateway.net.frames p) (s.gateway.net.out p) sends writer
      frames out) (halted : writer.Halted)
    (small : ∀ pkt, sends = [encode pkt] → (encode pkt).length < 2 ^ 31)
    (framed : s.gateway.net.frames p = sent.map encode) (inv : (s.downward p sent).Invariant messageFraming) :
    ∃ sent, frames = sent.map encode ∧ Link.Invariant messageFraming { s.downward p sent with
      writer
      channel := (s.client p).down ++ out.drop (s.gateway.net.out p).length } := by
  cases turn with
  | rest alive =>
      refine ⟨sent, framed, ?_⟩
      rw [List.drop_length, List.append_nil]
      exact writer_alive inv halted
  | @push pkt pushed =>
      refine ⟨sent ++ [pkt], by simp [framed], ?_⟩
      rw [List.drop_length, List.append_nil]
      exact enqueue_invariant rfl (small pkt pushed) inv
  | @write action writer bytes moved =>
      refine ⟨sent, framed, ?_⟩
      rw [List.drop_left]
      exact write_invariant (connection_writeLaw _ _ _ _ moved inv.halted) inv

theorem gateway_joined {s : Clients n} {action : Gateway.Action n} {gateway : Gateway n}
    (supplied : s.supplied action = true) (stepped : s.gateway.step action = some gateway) (joined : Joined s) :
    Joined
      { gateway
        client := fun p =>
          { s.client p with
            up := (s.client p).up.drop (received p action)
            down := (s.client p).down ++ (gateway.net.out p).drop (s.gateway.net.out p).length } } := by
  have accounted := Gateway.step_accounted stepped joined.accounted
  have sockets := Gateway.step_sockets stepped
  have upward (p : Nat) := upward_step supplied sockets (joined.upward p)
  refine ⟨accounted, upward, fun p => ?_⟩
  obtain ⟨sends, calls, turn⟩ := turn_step joined.accounted sockets p
  obtain ⟨sent, framed, inv⟩ := joined.downward p
  refine downward_step turn (accounted.net.halted p) (fun pkt pushed => ?_) framed inv
  refine sent_small accounted calls pushed fun message read => ?_
  rw [messages_readerAt] at read
  exact (upward p).valid message ((delivered_enqueued (upward p)).subset read)

/-! ## A step of a client -/

def Small (_ : Clients n) : Action n → Prop
  | .client _ (.enqueue pkt) => (encode pkt).length < 2 ^ 31
  | _ => True

theorem client_joined {s : Clients n} {p : Nat} {c : Client} {action : LinkAction}
    (stepped : (s.client p).step action = some c) (small : Small s (.client p action)) (joined : Joined s) :
    Joined { s with client := Function.update s.client p c } := by
  refine ⟨joined.accounted, fun q => ?_, fun q => ?_⟩
  · by_cases same : q = p
    · subst same
      have inv := joined.upward q
      simp only [upward, Function.update_self]
      cases action with
      | enqueue pkt =>
          obtain rfl := Option.some.inj stepped
          exact enqueue_invariant rfl small inv
      | closeWriter =>
          obtain rfl := Option.some.inj stepped
          exact closeWriter_invariant inv
      | closeReader =>
          obtain rfl := Option.some.inj stepped
          exact inv
      | write action =>
          obtain ⟨⟨writer, bytes⟩, moved, rfl⟩ := Option.map_eq_some_iff.mp stepped
          exact write_invariant (client_writeLaw _ _ _ _ moved inv.halted) inv
      | read action =>
          obtain ⟨-, -, rfl⟩ := Option.map_eq_some_iff.mp stepped
          exact inv
    · simp only [upward, Function.update_of_ne same]
      exact joined.upward q
  · obtain ⟨sent, framed, inv⟩ := joined.downward q
    refine ⟨sent, framed, ?_⟩
    by_cases same : q = p
    · subst same
      simp only [downward, Function.update_self]
      cases action with
      | enqueue pkt | closeWriter =>
          obtain rfl := Option.some.inj stepped
          exact inv
      | closeReader =>
          obtain rfl := Option.some.inj stepped
          exact reader_alive inv false
      | write action =>
          obtain ⟨-, -, rfl⟩ := Option.map_eq_some_iff.mp stepped
          exact inv
      | read action =>
          obtain ⟨⟨reader, down⟩, moved, rfl⟩ := Option.map_eq_some_iff.mp stepped
          exact read_invariant client_readLaw moved inv
    · simp only [downward, Function.update_of_ne same]
      exact inv

theorem step_joined {s t : Clients n} {action : Action n} (stepped : s.step action = some t) (small : Small s action)
    (joined : Joined s) : Joined t := by
  cases action with
  | gateway action =>
      simp only [step, Option.ite_none_right_eq_some] at stepped
      obtain ⟨gateway, moved, rfl⟩ := Option.map_eq_some_iff.mp stepped.2
      exact gateway_joined stepped.1 moved joined
  | client p action =>
      obtain ⟨c, moved, rfl⟩ := Option.map_eq_some_iff.mp stepped
      exact client_joined moved small joined

theorem exec_joined {s : Clients n} {actions : List (Action n)} (ran : exec step {} actions = some s)
    (small : Respects Small step {} actions) : Joined s :=
  exec_invariant_of_respects (fun _ _ _ stepped small joined => step_joined stepped small joined) ran small
    initial_joined

theorem gateway_run {s : Clients n} {actions : List (Action n)} (ran : exec step {} actions = some s) :
    ∃ actions, exec Gateway.step {} actions = some s.gateway := by
  refine exists_exec (@exec_simulated _ _ _ step Clients.gateway _ ?_ _ _ actions ran)
  intro s action t stepped
  cases action with
  | gateway action =>
      simp only [step, Option.ite_none_right_eq_some] at stepped
      obtain ⟨gateway, moved, rfl⟩ := Option.map_eq_some_iff.mp stepped.2
      exact .single ⟨action, moved⟩
  | client p action =>
      obtain ⟨c, moved, rfl⟩ := Option.map_eq_some_iff.mp stepped
      exact .refl

/-! ## What the clients hear -/

def answers (asked : List Packet) : List (List UInt8) := (asked.filterMap Gateway.reply).map Packet.data

/-- The threads of the gateway and both directions of connection `p` have nothing left to do. -/
structure Settled (s : Clients n) (p : Nat) : Prop where
  gateway : AtRest Gateway.step (·.internal = true) s.gateway
  upward : (s.upward p).Drained
  read : (s.upward p).reader.phase ≠ .parsing
  downward : (s.downward p []).Drained
  heard : (s.client p).reader.phase ≠ .parsing

theorem data_of_frames (pkts : List Packet) : pkts.map Packet.data = (pkts.map encode).map (List.drop 6) := by
  rw [List.map_map]
  apply List.map_congr_left
  intro pkt _
  have data := drop_six_encode pkt []
  rw [List.append_nil, List.append_nil] at data
  exact data.symm

theorem sent_front {g : Gateway n} (accounted : Gateway.Accounted g) {p : Nat} {sent : List Packet}
    (framed : g.net.frames p = sent.map encode) :
    ∃ queued, queued <+: g.replies (p + 1) ∧ sent.map Packet.data = queued.map Packet.data ∧
      (p ∈ g.net.server.pointers → queued = g.replies (p + 1)) := by
  cases here : g.net.server.made[p]? with
  | some c =>
      obtain ⟨queued, front, frames, whole⟩ := accounted.frames here
      refine ⟨queued, front, ?_, whole⟩
      rw [data_of_frames, data_of_frames, ← framed, frames]
  | none =>
      have beyond : g.net.server.made.length ≤ p := List.getElem?_eq_none_iff.mp here
      have empty := (accounted.net.later p beyond).1
      refine ⟨[], List.nil_prefix, ?_, fun member => ?_⟩
      · rw [data_of_frames, ← framed, empty]
        rfl
      · have known := (accounted.net.registry.entry (accounted.net.registry.pointer.mp member)).2
        exact absurd known (Nat.not_lt.mpr beyond)

theorem Joined.heard {s : Clients n} (joined : Joined s) (p : Nat) :
    (s.client p).reader.delivered <+: (s.gateway.replies (p + 1)).map Packet.data := by
  obtain ⟨sent, framed, inv⟩ := joined.downward p
  obtain ⟨queued, front, data, -⟩ := sent_front joined.accounted framed
  have heard : (s.client p).reader.delivered <+: sent.map Packet.data := delivered_front inv
  rw [data] at heard
  exact heard.trans (front.map _)

theorem Joined.read {s : Clients n} (joined : Joined s) (p : Nat) :
    (s.gateway.messages p).filterMap Gateway.reply <+: (s.client p).asked.filterMap Gateway.reply := by
  rw [messages_readerAt]
  exact (delivered_enqueued (joined.upward p)).filterMap _

theorem Joined.complete {s : Clients n} (joined : Joined s) (positive : 0 < n) (running : Gateway.Running s.gateway) {p : Nat}
    (member : p ∈ s.gateway.net.server.pointers) (settled : Settled s p) :
    (s.client p).reader.delivered.Perm (answers (s.client p).asked) := by
  have upward := joined.upward p
  obtain ⟨sent, framed, downward⟩ := joined.downward p
  obtain ⟨queued, -, data, whole⟩ := sent_front joined.accounted framed
  have read : s.gateway.messages p = (s.client p).asked := by
    rw [messages_readerAt]
    exact (complete_of_settled upward settled.upward (upward.settled settled.read)).1.trans (List.map_id _)
  have heard : (s.client p).reader.delivered = sent.map Packet.data :=
    (complete_of_settled downward settled.downward (downward.settled settled.heard)).1
  have replied := (running.rest_answered positive settled.gateway).2.2 p
  rw [heard, data, whole member, answers, ← read]
  exact replied.map _

/-- Whatever the schedule, a client hears answers to its own packets only, each at most once, and with one worker in
the order of its packets; once nothing is left to do, it has heard them all. -/
theorem clients_answered (actions : List (Action n)) (s : Clients n) (ran : exec step {} actions = some s)
    (small : ∀ p pkt, .client p (.enqueue pkt) ∈ actions → (encode pkt).length < 2 ^ 31) (p : Nat) :
    ((s.client p).reader.phase ≠ .crashed ∧ (s.upward p).reader.phase ≠ .crashed) ∧
    (s.client p).reader.delivered.Subperm (answers (s.client p).asked) ∧
    (n ≤ 1 → (s.client p).reader.delivered <+: answers (s.client p).asked) ∧
    (0 < n → s.gateway.pool.shutdown = .uncalled → p ∈ s.gateway.net.server.pointers → Settled s p →
      (s.client p).reader.delivered.Perm (answers (s.client p).asked)) := by
  have respects : Respects Small step {} actions := by
    have all : ∀ action ∈ actions, Small ({} : Clients n) action := by
      rintro (action | ⟨q, action⟩) member
      · trivial
      · cases action with
        | enqueue pkt => exact small q pkt member
        | _ => trivial
    exact respects_of_forall all _
  have joined := exec_joined ran respects
  obtain ⟨gatewayActions, reached⟩ := gateway_run ran
  obtain ⟨sent, -, downward⟩ := joined.downward p
  refine ⟨⟨downward.running, (joined.upward p).running⟩, ?_, fun one => ?_, fun positive uncalled member settled => ?_⟩
  · obtain ⟨replied, same, among⟩ := (joined.accounted.replies_subperm p).trans (joined.read p).sublist.subperm
    exact (joined.heard p).sublist.subperm.trans ⟨_, same.map _, among.map _⟩
  · have front := (Gateway.exec_ordered one reached).replies_front p
    exact (joined.heard p).trans ((front.trans (joined.read p)).map _)
  · exact joined.complete positive (Gateway.exec_running positive reached uncalled) member settled

/-- One client, one worker: a login and its answer. -/
def loginRun : List (Action 1) :=
  [.gateway (.net .start 0), .gateway (.net .accept 0), .gateway (.net (.begin 0) 0),
    .client 0 (.enqueue ⟨cmdLogin, []⟩), .client 0 (.write .run), .client 0 (.write .run), .client 0 (.write .run),
    .client 0 (.write (.send (.sent 6))), .gateway (.net (.read 0 (encode ⟨cmdLogin, []⟩) .run) 0),
    .gateway (.net (.read 0 (encode ⟨cmdLogin, []⟩) (.recv (.chunk 6))) 0), .gateway (.net (.read 0 [] .run) 0),
    .gateway (.append 0), .gateway (.net (.read 0 [] .run) 0), .gateway (.worker (.notifyOne none)),
    .gateway (.worker (.acquire 0)), .gateway (.worker (.evaluate 0)), .gateway (.worker (.take 0)),
    .gateway (.execute 0), .gateway (.enter 0), .gateway (.handle 0), .gateway (.unlock 0), .gateway (.finish 0),
    .gateway (.worker (.acquire 0)), .gateway (.worker (.evaluate 0)), .gateway (.worker (.block 0)),
    .gateway (.net (.write 0 .run) 0), .gateway (.net (.write 0 .run) 0), .gateway (.net (.write 0 .run) 0),
    .gateway (.net (.write 0 (.send (.sent 14))) 0), .client 0 (.read .run), .client 0 (.read (.recv (.chunk 14))),
    .client 0 (.read .run), .client 0 (.read .run)]

theorem loginRun_small (p : Nat) (pkt : Packet) (member : .client p (.enqueue pkt) ∈ loginRun) :
    (encode pkt).length < 2 ^ 31 := by
  have only : pkt = ⟨cmdLogin, []⟩ := by
    simp [loginRun] at member
    exact member.2
  rw [only]
  decide

theorem rest_of_idle {g : Gateway n} (workers : ∀ i, g.pool.workers i = .waiting) (silent : g.pool.notifications = 0)
    (outside : ∀ i, g.router.phases i = .outside) (pending : g.pending = ∅) :
    AtRest Gateway.step (·.internal = true) g := by
  intro action internal
  cases action with
  | append p => simp [Gateway.step, Gateway.append, pending]
  | execute i => simp [Gateway.step, Gateway.execute, workers]
  | enter i => simp [Gateway.step, Gateway.enter, Router.step, Router.enter, outside]
  | handle i => simp [Gateway.step, Gateway.handle, outside]
  | unlock i => simp [Gateway.step, Router.step, outside]
  | finish i => simp [Gateway.step, outside, ThreadPool.step, workers]
  | worker request =>
      cases request with
      | notifyOne target => cases target <;> simp [Gateway.step, ThreadPool.step, silent]
      | spurious => cases internal
      | _ => simp [Gateway.step, Gateway.fetches, ThreadPool.step, workers]
  | net | signal | shutdown => cases internal

theorem loginRun_ends : ∃ s, exec step {} loginRun = some s ∧ s.gateway.pool.workers 0 = .waiting ∧
    s.gateway.pool.notifications = 0 ∧ s.gateway.router.phases 0 = .outside ∧ s.gateway.pending = ∅ ∧
    (s.upward 0).Drained ∧ (s.upward 0).reader.phase = .top ∧ (s.downward 0 []).Drained ∧
    (s.client 0).reader.phase = .top ∧ s.gateway.pool.shutdown = .uncalled ∧
    s.gateway.net.server.pointers = [0] ∧ answers (s.client 0).asked = [loginOk] :=
  ⟨_, rfl, rfl, rfl, rfl, rfl, ⟨rfl, rfl, rfl, rfl⟩, rfl, ⟨rfl, rfl, rfl, rfl⟩, rfl, rfl, rfl, rfl⟩

theorem clients_answered_of_loginRun :
    ∃ s, exec step {} loginRun = some s ∧ (s.client 0).reader.delivered.Perm [loginOk] := by
  obtain ⟨s, ran, workers, silent, outside, pending, upward, read, downward, heard, uncalled, pointers, same⟩ :=
    loginRun_ends
  have rest := rest_of_idle (Fin.forall_fin_one.mpr workers) silent (Fin.forall_fin_one.mpr outside) pending
  have settled : Settled s 0 := ⟨rest, upward, by simp [read], downward, by simp [heard]⟩
  rw [← same]
  exact ⟨s, ran, (clients_answered loginRun s ran loginRun_small 0).2.2.2 (by decide) uncalled (by simp [pointers]) settled⟩

end Clients

end ServerFramework.Example
