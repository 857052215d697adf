import ServerFramework.Example.Gateway
import ServerFramework.Proof.Business.Router
import ServerFramework.Proof.Core.Drains
import ServerFramework.Proof.Network.Messages

namespace ServerFramework.Example
open Protocol Tcp ServerFramework.Core Business Library

/-! ## The handlers -/

def Handler.reply : Handler → Packet → Option Packet
  | .login, _ => some ⟨cmdLogin, loginOk⟩
  | .logout, _ => none
  | .data, pkt => some ⟨cmdData, pkt.data⟩

namespace Gateway

variable {n : Nat}

theorem lookup_handlers (cmd : UInt16) : handlers.lookup cmd =
    if cmd = cmdData then some .data else if cmd = cmdLogout then some .logout
    else if cmd = cmdLogin then some .login else none := by
  unfold handlers
  by_cases data : cmd = cmdData
  · subst data
    simp
  · rw [AList.lookup_insert_ne data, if_neg data]
    by_cases logout : cmd = cmdLogout
    · subst logout
      simp
    · rw [AList.lookup_insert_ne logout, if_neg logout]
      by_cases login : cmd = cmdLogin
      · subst login
        rw [AList.lookup_insert, if_pos rfl]
      · rw [AList.lookup_insert_ne login, if_neg login]
        rfl

theorem reply_of_lookup (pkt : Packet) : reply pkt = (handlers.lookup pkt.cmd).bind fun handler => handler.reply pkt := by
  rw [lookup_handlers, reply]
  by_cases login : pkt.cmd = cmdLogin
  · simp [login, cmdLogin, cmdLogout, cmdData, Handler.reply]
  · by_cases data : pkt.cmd = cmdData
    · simp [data, cmdLogin, cmdData, Handler.reply]
    · by_cases logout : pkt.cmd = cmdLogout
      · simp [logout, cmdLogin, cmdLogout, cmdData, Handler.reply]
      · simp [login, data, logout]

/-! ## What a step can do -/

theorem messages_eq (g : Gateway n) (p : Nat) : g.messages p = g.net.server.delivered p := rfl

/-- What the readers and the workers do once nothing more comes in. -/
def Action.internal : Action n → Bool
  | .append _ | .execute _ | .enter _ | .handle _ | .unlock _ | .finish _ => true
  | .worker action => action.internal
  | .net _ _ | .signal | .shutdown _ => false

inductive Effect (g : Gateway n) : Action n → Gateway n → Prop
  | net {action : Action n} {request : TcpServer.Action} {net : Traffic} {sessions : SessionMgr} {signalled : Bool}
      (outside : action.internal = false) (stepped : g.net.step request = some net) (sends : request.sends = [])
      (delivered : net.server.delivered = g.net.server.delivered)
      (empty : g.sessions.sessions = ∅ → sessions.sessions = ∅) : Effect g action { g with net, sessions, signalled }
  | message {action : Action n} {request : TcpServer.Action} {net : Traffic} {p : Nat} {pkt : Packet}
      (outside : action.internal = false) (stepped : g.net.step request = some net) (sends : request.sends = [])
      (idle : g.pending.lookup p = none)
      (delivered : net.server.delivered = Function.update g.net.server.delivered p (g.net.server.delivered p ++ [pkt])) :
      Effect g action { g with net, pending := g.pending.insert p ⟨p + 1, pkt⟩ }
  | append {p : Nat} {job : Job} {pool : ThreadPool n} (found : g.pending.lookup p = some job)
      (stepped : ThreadPool.step .shutdown g.pool (.append .normal) = some pool) :
      Effect g (.append p) { g with pool, jobs := g.jobs ++ [job], pending := g.pending.erase p }
  | pool {action : Action n} (request : ThreadPool.Action n) {pool : ThreadPool n}
      (plain : (∀ priority, request ≠ .append priority) ∧ ∀ i, request ≠ .execute i)
      (idle : ∀ i, request = .finish i → g.router.phases i = .outside)
      (within : action.internal = true → request.internal = true)
      (stepped : ThreadPool.step .shutdown g.pool request = some pool) : Effect g action { g with pool }
  | execute {i : Fin n} {task : Task} {job : Job} {pool : ThreadPool n} {router : Router (Fin n) Handler}
      (holding : g.pool.workers i = .holding task) (found : g.jobs[task.ticket]? = some job)
      (stepped : ThreadPool.step .shutdown g.pool (.execute i) = some pool)
      (calls : g.router.step (.call i (.route job.sessionId job.pkt)) = some router) :
      Effect g (.execute i) { g with pool, router, routing := Function.update g.routing i (some task.ticket) }
  | missed {i : Fin n} {router : Router (Fin n) Handler} (stepped : g.router.step (.enter i) = some router)
      (outside : router.phases i = .outside) : Effect g (.enter i) { g.answer i with router }
  | entered {i : Fin n} {router : Router (Fin n) Handler} (stepped : g.router.step (.enter i) = some router)
      (inside : router.phases i ≠ .outside) : Effect g (.enter i) { g with router }
  | sent {i : Fin n} {handler : Handler} {sid : Int} {pkt answer : Packet} {router : Router (Fin n) Handler}
      {net : Traffic} (calling : g.router.phases i = .calling handler sid pkt)
      (stepped : g.router.step (.handle i) = some router) (answers : handler.reply pkt = some answer)
      (sends : g.net.step (.sendTo sid answer) = some net) : Effect g (.handle i) { g.answer i with router, net }
  | noted {i : Fin n} {handler : Handler} {sid : Int} {pkt : Packet} {router : Router (Fin n) Handler}
      (calling : g.router.phases i = .calling handler sid pkt) (stepped : g.router.step (.handle i) = some router)
      (silent : handler.reply pkt = none) :
      Effect g (.handle i) { g.answer i with router, sessions := g.sessions.remove sid }
  | unlock {i : Fin n} {router : Router (Fin n) Handler} (stepped : g.router.step (.unlock i) = some router) :
      Effect g (.unlock i) { g with router }

theorem external_sends {action : TcpServer.Action} (outside : external action = true) : action.sends = [] := by
  cases action <;> first | rfl | cases outside

theorem foldl_closed (reader : Option Nat) (tick : UInt64) (g : Gateway n) (closed : List Int) :
    ∃ sessions : SessionMgr, (g.sessions.sessions = ∅ → sessions.sessions = ∅) ∧
      (closed.map fun sid => (sid, Callback.closed)).foldl (callback reader tick) g = { g with sessions } := by
  induction closed generalizing g with
  | nil => exact ⟨g.sessions, id, rfl⟩
  | cons sid closed ih =>
      obtain ⟨sessions, empty, same⟩ := ih (callback reader tick g (sid, .closed))
      refine ⟨sessions, fun none => empty ?_, same⟩
      rw [callback, SessionMgr.remove, none]
      rfl

theorem onNet_effect {g next : Gateway n} {action : TcpServer.Action} {tick : UInt64}
    (stepped : g.onNet action tick = some next) (registry : g.net.server.Registry) (listening : g.net.server.Listening) :
    Effect g (.net action tick) next := by
  simp only [onNet, Option.ite_none_right_eq_some] at stepped
  obtain ⟨⟨outside, idle⟩, rest⟩ := stepped
  obtain ⟨net, moved, rfl⟩ := Option.map_eq_some_iff.mp rest
  cases TcpServer.step_heard (Traffic.step_stepped moved).server registry listening with
  | @message p input action new few delivered log =>
      rw [log, List.drop_left]
      match new with
      | [] =>
          refine .net rfl moved rfl ?_ id
          rw [delivered, List.append_nil, Function.update_eq_self]
      | [pkt] => exact .message rfl moved rfl (by simpa [reader] using idle) delivered
      | _ :: _ :: _ => simp at few
  | nothing delivered closed log =>
      rw [log, List.drop_left]
      obtain ⟨sessions, empty, same⟩ := foldl_closed (reader action) tick { g with net } closed
      rw [same]
      exact .net rfl moved (external_sends outside) delivered empty

theorem handle_effect {g next : Gateway n} {i : Fin n} (stepped : g.handle i = some next) :
    Effect g (.handle i) next := by
  simp only [handle] at stepped
  split at stepped
  · rename_i handler sid pkt calling
    obtain ⟨router, moved, rest⟩ := Option.bind_eq_some_iff.mp stepped
    cases handler with
    | login =>
        rw [callHandler, handleLogin] at rest
        obtain ⟨net, sends, rfl⟩ := Option.map_eq_some_iff.mp rest
        exact .sent calling moved rfl sends
    | logout =>
        obtain rfl := Option.some.inj rest
        exact .noted calling moved rfl
    | data =>
        rw [callHandler, handleData] at rest
        obtain ⟨net, sends, rfl⟩ := Option.map_eq_some_iff.mp rest
        exact .sent calling moved rfl sends
  · cases stepped

theorem step_effect {g next : Gateway n} {action : Action n} (stepped : g.step action = some next)
    (registry : g.net.server.Registry) (listening : g.net.server.Listening) : Effect g action next := by
  cases action with
  | net action tick => exact onNet_effect stepped registry listening
  | append p =>
      obtain ⟨job, found, rest⟩ := Option.bind_eq_some_iff.mp stepped
      obtain ⟨pool, moved, rfl⟩ := Option.map_eq_some_iff.mp rest
      exact .append found moved
  | worker action =>
      simp only [step, Option.ite_none_right_eq_some] at stepped
      obtain ⟨fetching, rest⟩ := stepped
      obtain ⟨pool, moved, rfl⟩ := Option.map_eq_some_iff.mp rest
      refine .pool action ⟨?_, ?_⟩ ?_ id moved
      · rintro priority rfl
        cases fetching
      · rintro i rfl
        cases fetching
      · rintro i rfl
        cases fetching
  | execute i =>
      simp only [step, execute] at stepped
      split at stepped
      · rename_i task holding
        obtain ⟨job, found, rest⟩ := Option.bind_eq_some_iff.mp stepped
        obtain ⟨pool, moved, rest⟩ := Option.bind_eq_some_iff.mp rest
        obtain ⟨router, calls, rfl⟩ := Option.map_eq_some_iff.mp rest
        exact .execute holding found moved calls
      · cases stepped
  | enter i =>
      obtain ⟨router, moved, rfl⟩ := Option.map_eq_some_iff.mp stepped
      dsimp only
      split
      · rename_i outside
        exact .missed moved outside
      · rename_i inside
        exact .entered moved inside
  | handle i => exact handle_effect stepped
  | unlock i =>
      obtain ⟨router, moved, rfl⟩ := Option.map_eq_some_iff.mp stepped
      exact .unlock moved
  | finish i =>
      simp only [step] at stepped
      split at stepped
      · rename_i outside
        obtain ⟨pool, moved, rfl⟩ := Option.map_eq_some_iff.mp stepped
        refine .pool (.finish i) (by simp) ?_ (fun _ => rfl) moved
        rintro j same
        obtain rfl := ThreadPool.Action.finish.inj same
        exact outside
      · cases stepped
  | signal =>
      rw [step] at stepped
      obtain ⟨net, moved, rfl⟩ := Option.map_eq_some_iff.mp stepped
      cases TcpServer.step_heard (Traffic.step_stepped moved).server registry listening with
      | nothing delivered _ _ => exact .net rfl moved rfl delivered id
  | shutdown action =>
      simp only [step, Option.ite_none_right_eq_some] at stepped
      obtain ⟨⟨-, ending⟩, rest⟩ := stepped
      obtain ⟨pool, moved, rfl⟩ := Option.map_eq_some_iff.mp rest
      refine .pool action ⟨?_, ?_⟩ ?_ (fun internal => by cases internal) moved
      · rintro priority rfl
        cases ending
      · rintro i rfl
        cases ending
      · rintro i rfl
        cases ending

/-! ## Where each job is -/

/-- A worker, the task it still has to hand to a handler, and its place in the router. -/
inductive Linked (jobs : List Job) : Worker → Option Nat → Router.Phase Handler → Prop
  | idle {worker : Worker} : Linked jobs worker none .outside
  | locking {task : Task} {job : Job} (found : jobs[task.ticket]? = some job) :
      Linked jobs (.executing task) (some task.ticket) (.locking (.route job.sessionId job.pkt))
  | calling {task : Task} {job : Job} {handler : Handler} (found : jobs[task.ticket]? = some job) :
      Linked jobs (.executing task) (some task.ticket) (.calling handler job.sessionId job.pkt)
  | called {task : Task} : Linked jobs (.executing task) none .called

theorem Linked.more {jobs : List Job} {worker : Worker} {routing : Option Nat} {phase : Router.Phase Handler}
    (linked : Linked jobs worker routing phase) (job : Job) : Linked (jobs ++ [job]) worker routing phase := by
  have kept {ticket : Nat} {other : Job} (found : jobs[ticket]? = some other) :
      (jobs ++ [job])[ticket]? = some other := by
    rw [List.getElem?_append_left (List.getElem?_eq_some_iff.mp found).1, found]
  cases linked with
  | idle => exact .idle
  | locking found => exact .locking (kept found)
  | calling found => exact .calling (kept found)
  | called => exact .called

theorem Linked.keep {jobs : List Job} {worker next : Worker} {routing : Option Nat} {phase : Router.Phase Handler}
    (linked : Linked jobs worker routing phase) (same : ∀ task, worker = .executing task → next = .executing task ∨ phase = .outside) :
    Linked jobs next routing phase := by
  cases linked with
  | idle => exact .idle
  | locking found =>
      rcases same _ rfl with rfl | outside
      · exact .locking found
      · cases outside
  | calling found =>
      rcases same _ rfl with rfl | outside
      · exact .calling found
      · cases outside
  | called =>
      rcases same _ rfl with rfl | outside
      · exact .called
      · cases outside

theorem Linked.routing_none {jobs : List Job} {worker : Worker} {routing : Option Nat} {phase : Router.Phase Handler}
    (linked : Linked jobs worker routing phase) (outside : phase = .outside) : routing = none := by
  cases linked with
  | idle => rfl
  | _ => cases outside

theorem Linked.not_reentering {jobs : List Job} {worker : Worker} {routing : Option Nat} {phase : Router.Phase Handler}
    (linked : Linked jobs worker routing phase) (call : Router.Call Handler) : phase ≠ .reentering call := by
  cases linked <;> simp

def carries (ticket : Nat) (routing : Option Nat) : Nat := if routing = some ticket then 1 else 0

end Gateway

def Job.call (job : Job) : Option (Option Int × Packet) := (Gateway.reply job.pkt).map fun answer => (some job.sessionId, answer)

namespace Gateway

variable {n : Nat}

def jobsOf (g : Gateway n) (sid : Int) : List Packet := (g.jobs.filter fun job => job.sessionId = sid).map Job.pkt

structure Accounted (g : Gateway n) : Prop where
  pool : ThreadPool.Consistent .shutdown g.pool
  router : Router.Serial g.router
  table : g.router.handlers = handlers
  net : Traffic.Flowing g.net
  listening : g.net.server.Listening
  jobs : g.jobs.length = g.pool.submitted
  linked : ∀ i, Linked g.jobs (g.pool.workers i) (g.routing i) (g.router.phases i)
  balance : ∀ ticket, g.pool.started.count ticket = g.answered.count ticket + total (carries ticket) g.routing
  calls : g.net.calls = g.answered.filterMap fun ticket => g.jobs[ticket]?.bind Job.call
  read : ∀ p : Nat, g.jobsOf (p + 1) ++ ((g.pending.lookup p).map Job.pkt).toList = g.messages p
  own : ∀ (p : Nat) job, g.pending.lookup p = some job → job.sessionId = p + 1
  fresh : ∀ (p lo : Nat), g.net.joined[p]? = some lo → ∀ call ∈ g.net.calls.take lo, call.1 ≠ some ((p : Int) + 1)
  sessions : g.sessions.sessions = ∅

theorem initial_router_serial : Router.Serial ({} : Gateway n).router where
  holder := by simp [Router.Phase.inside]
  current cmd := by
    rw [lookup_handlers]
    simp [registrations, Router.registered, eq_comm]
  logged := by
    have none : Router.AsLogged ([] : List (Router.Call Handler × Option Handler)) := by simp [Router.AsLogged]
    exact ((none.snoc rfl).snoc rfl).snoc rfl
  last := by simp [Router.LastLogged]

theorem initial_accounted : Accounted ({} : Gateway n) where
  pool := ThreadPool.initial_consistent
  router := initial_router_serial
  table := rfl
  net := Traffic.initial_flowing _
  listening := ⟨rfl, by simp⟩
  jobs := rfl
  linked _ := .idle
  balance := by simp [total, carries]
  calls := rfl
  read p := rfl
  own := by simp
  fresh := by simp
  sessions := rfl

/-! ## The tasks and their answers -/

theorem plain_started {pool next : ThreadPool n} {request : ThreadPool.Action n}
    (stepped : ThreadPool.step .shutdown pool request = some next)
    (plain : (∀ priority, request ≠ .append priority) ∧ ∀ i, request ≠ .execute i) :
    next.started = pool.started ∧ next.submitted = pool.submitted := by
  cases ThreadPool.step_effect stepped with
  | append => exact absurd rfl (plain.1 _)
  | execute => exact absurd rfl (plain.2 _)
  | take => exact ⟨(ThreadPool.takeTask_keeps pool _).2.1, (ThreadPool.takeTask_keeps pool _).2.2.1⟩
  | _ => exact ⟨rfl, rfl⟩

theorem executing_stays {pool next : ThreadPool n} {request : ThreadPool.Action n} {j : Fin n} {task : Task}
    (stepped : ThreadPool.step .shutdown pool request = some next) (executing : pool.workers j = .executing task) :
    next.workers j = .executing task ∨ request = .finish j := by
  have other {i : Fin n} {worker : Worker} (here : pool.workers i ≠ .executing task) :
      Function.update pool.workers i worker j = .executing task := by
    rw [Function.update_of_ne fun same => here (by rw [← same]; exact executing), executing]
  cases ThreadPool.step_effect stepped with
  | append | notifyNobody | stop | swap | join => exact .inl executing
  | notifyOne waiting | spurious waiting => exact .inl (other (by simp [waiting]))
  | acquire unlocked enters => exact .inl (other (by rcases enters with at_ | at_ <;> simp [at_]))
  | evaluate evaluating => exact .inl (other (by simp [evaluating]))
  | block blocking => exact .inl (other (by simp [blocking]))
  | execute holding => exact .inl (other (by simp [holding]))
  | @take i ready =>
      have here : pool.workers i ≠ .executing task := by rw [ready]; simp
      unfold ThreadPool.takeTask
      split
      · split <;> exact .inl (other here)
      · exact .inl (other here)
  | @finish i _ _ =>
      by_cases same : i = j
      · exact .inr (by rw [same])
      · exact .inl ((Function.update_of_ne (Ne.symm same) _ _).trans executing)
  | notifyAll => exact .inl (by simp [executing, ThreadPool.wake])

theorem Accounted.answered_known {g : Gateway n} (accounted : Accounted g) {ticket : Nat}
    (answered : ticket ∈ g.answered) : ticket < g.jobs.length := by
  have started : 0 < g.pool.started.count ticket := by
    rw [accounted.balance]
    exact Nat.add_pos_left (List.count_pos_iff.mpr answered) _
  have balance := accounted.pool.balance ticket
  rw [accounted.jobs]
  split at balance
  · assumption
  · omega

theorem Accounted.append {g : Gateway n} (accounted : Accounted g) {p : Nat} {job : Job} {pool : ThreadPool n}
    (found : g.pending.lookup p = some job)
    (stepped : ThreadPool.step .shutdown g.pool (.append .normal) = some pool) :
    Accounted { g with pool, jobs := g.jobs ++ [job], pending := g.pending.erase p } := by
  have consistent := ThreadPool.step_consistent stepped accounted.pool
  have effect := ThreadPool.step_effect stepped
  cases effect with
  | append unlocked =>
      refine { accounted with
        pool := consistent
        jobs := by simp [accounted.jobs]
        linked := fun i => (accounted.linked i).more job
        balance := accounted.balance
        calls := ?_
        read := fun q => ?_
        own := fun q other pending => ?_ }
      · dsimp only
        rw [accounted.calls]
        apply List.filterMap_congr
        intro ticket answered
        rw [List.getElem?_append_left (accounted.answered_known answered)]
      · have before := accounted.read q
        simp only [jobsOf, List.filter_append, List.map_append] at before ⊢
        rw [messages_eq] at before ⊢
        rw [← before]
        by_cases same : q = p
        · subst same
          simp [found, accounted.own q job found]
        · have different : job.sessionId ≠ (q : Int) + 1 := by
            rw [accounted.own p job found]
            omega
          simp [different, AList.lookup_erase_ne same]
      · by_cases same : q = p
        · subst same
          simp at pending
        · exact accounted.own q other (by rwa [AList.lookup_erase_ne same] at pending)

theorem Accounted.plain {g : Gateway n} (accounted : Accounted g) {request : ThreadPool.Action n} {pool : ThreadPool n}
    (plain : (∀ priority, request ≠ .append priority) ∧ ∀ i, request ≠ .execute i)
    (idle : ∀ i, request = .finish i → g.router.phases i = .outside)
    (stepped : ThreadPool.step .shutdown g.pool request = some pool) : Accounted { g with pool } := by
  obtain ⟨started, submitted⟩ := plain_started stepped plain
  exact { accounted with
    pool := ThreadPool.step_consistent stepped accounted.pool
    jobs := accounted.jobs.trans submitted.symm
    linked := fun i => (accounted.linked i).keep fun task executing =>
      (executing_stays stepped executing).imp id (idle i)
    balance := fun ticket => by
      rw [← accounted.balance ticket, ← started]
    calls := accounted.calls
    read := accounted.read
    own := accounted.own
    fresh := accounted.fresh }

theorem update_linked {jobs : List Job} {workers : Fin n → Worker} {routing : Fin n → Option Nat}
    {phases : Fin n → Router.Phase Handler} (linked : ∀ i, Linked jobs (workers i) (routing i) (phases i)) {i : Fin n}
    {ticket : Option Nat} {phase : Router.Phase Handler} (own : Linked jobs (workers i) ticket phase) (j : Fin n) :
    Linked jobs (workers j) (Function.update routing i ticket j) (Function.update phases i phase j) := by
  by_cases same : j = i
  · subst same
    simpa using own
  · simpa [same] using linked j

theorem Accounted.execute {g : Gateway n} (accounted : Accounted g) {i : Fin n} {task : Task} {job : Job}
    {pool : ThreadPool n} {router : Router (Fin n) Handler} (holding : g.pool.workers i = .holding task)
    (found : g.jobs[task.ticket]? = some job) (stepped : ThreadPool.step .shutdown g.pool (.execute i) = some pool)
    (calls : g.router.step (.call i (.route job.sessionId job.pkt)) = some router) :
    Accounted { g with pool, router, routing := Function.update g.routing i (some task.ticket) } := by
  have consistent := ThreadPool.step_consistent stepped accounted.pool
  have serial := Router.step_serial calls accounted.router
  have idle := accounted.linked i
  rw [holding] at idle
  generalize routed : g.routing i = routing at idle
  generalize placed : g.router.phases i = phase at idle
  cases idle with
  | idle =>
      cases Router.step_effect calls with
      | reenter calling => rw [placed] at calling; cases calling
      | call =>
          cases ThreadPool.step_effect stepped with
          | @execute _ other there =>
              obtain rfl : task = other := Worker.holding.inj (holding.symm.trans there)
              refine { accounted with
                pool := consistent
                router := serial
                table := accounted.table
                linked := fun j => ?_
                balance := fun ticket => ?_
                calls := accounted.calls
                read := accounted.read }
              · by_cases same : j = i
                · subst same
                  simpa [ThreadPool.setWorker, Router.setPhase] using Linked.locking found
                · simpa [ThreadPool.setWorker, Router.setPhase, same] using accounted.linked j
              · have moved := total_update (carries ticket) g.routing i (some task.ticket)
                have before := accounted.balance ticket
                rw [routed] at moved
                simp only [carries, reduceCtorEq, if_false, Option.some.injEq] at moved
                simp only [List.count_append, List.count_singleton, beq_iff_eq]
                omega

theorem Accounted.locked {g : Gateway n} (accounted : Accounted g) {i : Fin n} {router : Router (Fin n) Handler}
    (stepped : g.router.step (.enter i) = some router) :
    ∃ task job, g.pool.workers i = .executing task ∧ g.routing i = some task.ticket ∧
      g.jobs[task.ticket]? = some job ∧ router.handlers = handlers ∧
      ((reply job.pkt = none ∧ router.phases = Function.update g.router.phases i .outside) ∨
        ∃ handler, router.phases = Function.update g.router.phases i (.calling handler job.sessionId job.pkt)) := by
  cases Router.step_effect stepped with
  | @enter _ call locking free =>
      have linked := accounted.linked i
      rw [locking] at linked
      generalize worked : g.pool.workers i = worker at linked
      generalize routed : g.routing i = routing at linked
      cases linked with
      | @locking task job found =>
          refine ⟨task, job, rfl, rfl, found, ?_⟩
          have answers := reply_of_lookup job.pkt
          rw [Router.locked, accounted.table]
          cases lookup : handlers.lookup job.pkt.cmd with
          | none =>
              rw [lookup] at answers
              exact ⟨accounted.table, .inl ⟨answers, rfl⟩⟩
          | some handler => exact ⟨accounted.table, .inr ⟨handler, rfl⟩⟩

theorem answer_balance {g : Gateway n} (accounted : Accounted g) {i : Fin n} {ticket : Nat}
    (routed : g.routing i = some ticket) (other : Nat) :
    g.pool.started.count other = (g.answered ++ [ticket]).count other +
      total (carries other) (Function.update g.routing i none) := by
  have moved := total_update (carries other) g.routing i none
  have before := accounted.balance other
  rw [routed] at moved
  simp only [carries, reduceCtorEq, if_false, Option.some.injEq] at moved
  simp only [List.count_append, List.count_singleton, beq_iff_eq]
  omega

theorem Accounted.missed {g : Gateway n} (accounted : Accounted g) {i : Fin n} {router : Router (Fin n) Handler}
    (stepped : g.router.step (.enter i) = some router) (outside : router.phases i = .outside) :
    Accounted { g.answer i with router } := by
  obtain ⟨task, job, worked, routed, found, table, ⟨silent, phases⟩ | ⟨handler, phases⟩⟩ := accounted.locked stepped
  · exact { accounted with
      router := Router.step_serial stepped accounted.router
      table
      linked := by
        simp only [answer, phases]
        exact update_linked accounted.linked .idle
      balance := by
        simp only [answer, routed, Option.toList_some]
        exact answer_balance accounted routed
      calls := by
        simp only [answer, routed, Option.toList_some]
        rw [List.filterMap_append, ← accounted.calls]
        simp [found, Job.call, silent]
      read := accounted.read }
  · simp [phases] at outside

theorem Accounted.entered {g : Gateway n} (accounted : Accounted g) {i : Fin n} {router : Router (Fin n) Handler}
    (stepped : g.router.step (.enter i) = some router) (inside : router.phases i ≠ .outside) :
    Accounted { g with router } := by
  obtain ⟨task, job, worked, routed, found, table, ⟨silent, phases⟩ | ⟨handler, phases⟩⟩ := accounted.locked stepped
  · simp [phases] at inside
  · refine { accounted with
      router := Router.step_serial stepped accounted.router
      table
      linked := fun j => ?_
      balance := accounted.balance
      read := accounted.read }
    have own : Linked g.jobs (g.pool.workers i) (g.routing i) (.calling handler job.sessionId job.pkt) := by
      rw [worked, routed]
      exact .calling found
    have all := update_linked accounted.linked own j
    rw [Function.update_eq_self] at all
    rw [phases]
    exact all

theorem Accounted.unlock {g : Gateway n} (accounted : Accounted g) {i : Fin n} {router : Router (Fin n) Handler}
    (stepped : g.router.step (.unlock i) = some router) : Accounted { g with router } := by
  have serial := Router.step_serial stepped accounted.router
  cases Router.step_effect stepped with
  | unlock called =>
      refine { accounted with
        router := serial
        table := accounted.table
        linked := fun j => ?_
        balance := accounted.balance
        read := accounted.read }
      have own : Linked g.jobs (g.pool.workers i) (g.routing i) .outside := by
        have linked := accounted.linked i
        rw [called] at linked
        generalize g.routing i = routing at linked
        generalize g.pool.workers i = worker at linked
        cases linked with
        | called => exact .idle
      have all := update_linked accounted.linked own j
      rw [Function.update_eq_self] at all
      exact all

theorem running_handler {router : Router (Fin n) Handler} (serial : Router.Serial router)
    (table : router.handlers = handlers) {i : Fin n} {handler : Handler} {sid : Int} {pkt : Packet}
    (calling : router.phases i = .calling handler sid pkt) : reply pkt = handler.reply pkt := by
  rw [reply_of_lookup, ← table, serial.running calling]
  rfl

theorem Accounted.handled {g : Gateway n} (accounted : Accounted g) {i : Fin n} {handler : Handler} {sid : Int}
    {pkt : Packet} {router : Router (Fin n) Handler} (calling : g.router.phases i = .calling handler sid pkt)
    (stepped : g.router.step (.handle i) = some router) :
    ∃ ticket job, g.routing i = some ticket ∧ g.jobs[ticket]? = some job ∧ job = ⟨sid, pkt⟩ ∧
      router.handlers = handlers ∧
      ∀ j, Linked g.jobs (g.pool.workers j) (Function.update g.routing i none j) (router.phases j) := by
  have linked := accounted.linked i
  rw [calling] at linked
  generalize worked : g.pool.workers i = worker at linked
  generalize routed : g.routing i = routing at linked
  cases linked with
  | @calling task job _ found =>
      cases Router.step_effect stepped with
      | handle =>
          refine ⟨task.ticket, job, rfl, found, rfl, accounted.table, update_linked accounted.linked ?_⟩
          rw [worked]
          exact .called

theorem Accounted.noted {g : Gateway n} (accounted : Accounted g) {i : Fin n} {handler : Handler} {sid : Int}
    {pkt : Packet} {router : Router (Fin n) Handler} (calling : g.router.phases i = .calling handler sid pkt)
    (stepped : g.router.step (.handle i) = some router) (silent : handler.reply pkt = none) :
    Accounted { g.answer i with router, sessions := g.sessions.remove sid } := by
  obtain ⟨ticket, job, routed, found, rfl, table, linked⟩ := accounted.handled calling stepped
  have answers := running_handler accounted.router accounted.table calling
  exact { accounted with
    router := Router.step_serial stepped accounted.router
    table
    linked
    balance := by
      simp only [answer, routed, Option.toList_some]
      exact answer_balance accounted routed
    calls := by
      simp only [answer, routed, Option.toList_some]
      rw [List.filterMap_append, ← accounted.calls]
      simp [found, Job.call, answers, silent]
    read := accounted.read
    sessions := by
      rw [SessionMgr.remove]
      simp only [accounted.sessions]
      rfl }

/-! ## The sockets -/

theorem Fresh.step {s t : Traffic} {action : TcpServer.Action} (stepped : Traffic.Stepped s action t)
    (flowing : Traffic.Flowing s)
    (fresh : ∀ (p lo : Nat), s.joined[p]? = some lo → ∀ call ∈ s.calls.take lo, call.1 ≠ some ((p : Int) + 1))
    (unknown : ∀ call ∈ s.calls, call.1 ≠ some ((s.server.made.length : Int) + 1)) :
    ∀ (p lo : Nat), t.joined[p]? = some lo → ∀ call ∈ t.calls.take lo, call.1 ≠ some ((p : Int) + 1) := by
  have old {p lo : Nat} (joined : s.joined[p]? = some lo) : ∀ call ∈ t.calls.take lo, call.1 ≠ some ((p : Int) + 1) := by
    have inside := (List.getElem?_eq_some_iff.mp joined).1
    rw [flowing.joined] at inside
    obtain ⟨hi, ⟨low, high, -⟩, -⟩ := flowing.window p _ lo (List.getElem?_eq_getElem inside) joined
    rw [stepped.calls, List.take_append_of_le_length (Nat.le_trans low high)]
    exact fresh p lo joined
  intro p lo joined
  rw [stepped.joined] at joined
  split at joined
  · rename_i accepts
    subst accepts
    rcases Nat.lt_or_ge p s.joined.length with before | beyond
    · exact old (by rwa [List.getElem?_append_left before] at joined)
    · have inside := (List.getElem?_eq_some_iff.mp joined).1
      rw [List.length_append, List.length_singleton] at inside
      obtain rfl : p = s.joined.length := by omega
      rw [List.getElem?_concat_length] at joined
      obtain rfl := Option.some.inj joined
      rw [stepped.calls, List.take_append_of_le_length (Nat.le_refl _), List.take_length, flowing.joined]
      exact unknown
  · exact old joined

theorem Accounted.call_job {g : Gateway n} (accounted : Accounted g) {call : Option Int × Packet}
    (member : call ∈ g.net.calls) : ∃ job ∈ g.jobs, call.1 = some job.sessionId ∧ reply job.pkt = some call.2 := by
  rw [accounted.calls] at member
  obtain ⟨ticket, -, found⟩ := List.mem_filterMap.mp member
  obtain ⟨job, here, called⟩ := Option.bind_eq_some_iff.mp found
  obtain ⟨answer, answers, rfl⟩ := Option.map_eq_some_iff.mp called
  exact ⟨job, List.mem_of_getElem? here, rfl, answers⟩

theorem Accounted.unmade {g : Gateway n} (accounted : Accounted g) {p : Nat} (beyond : g.net.server.made.length ≤ p) :
    g.jobsOf (p + 1) = [] ∧ g.pending.lookup p = none := by
  have read := accounted.read p
  rw [messages, List.getElem?_eq_none beyond] at read
  obtain ⟨jobs, pending⟩ := List.append_eq_nil_iff.mp read
  exact ⟨jobs, by simpa using pending⟩

theorem Accounted.unknown {g : Gateway n} (accounted : Accounted g) :
    ∀ call ∈ g.net.calls, call.1 ≠ some ((g.net.server.made.length : Int) + 1) := by
  intro call member same
  obtain ⟨job, among, session, -⟩ := accounted.call_job member
  have nobody := (accounted.unmade (Nat.le_refl _)).1
  rw [session] at same
  have listed : job.pkt ∈ g.jobsOf (g.net.server.made.length + 1) :=
    List.mem_map_of_mem (List.mem_filter.mpr ⟨among, by simpa using same⟩)
  rw [nobody] at listed
  cases listed

theorem Accounted.traffic {g : Gateway n} (accounted : Accounted g) {request : TcpServer.Action} {net : Traffic}
    (stepped : g.net.step request = some net) :
    Traffic.Flowing net ∧ net.server.Listening ∧
      ∀ (p lo : Nat), net.joined[p]? = some lo → ∀ call ∈ net.calls.take lo, call.1 ≠ some ((p : Int) + 1) :=
  ⟨Traffic.step_flowing stepped accounted.net,
    TcpServer.step_listening (Traffic.step_stepped stepped).server accounted.listening,
    Fresh.step (Traffic.step_stepped stepped) accounted.net accounted.fresh accounted.unknown⟩

theorem Accounted.sent {g : Gateway n} (accounted : Accounted g) {i : Fin n} {handler : Handler} {sid : Int}
    {pkt answer : Packet} {router : Router (Fin n) Handler} {net : Traffic}
    (calling : g.router.phases i = .calling handler sid pkt) (stepped : g.router.step (.handle i) = some router)
    (answers : handler.reply pkt = some answer) (sends : g.net.step (.sendTo sid answer) = some net) :
    Accounted { g.answer i with router, net } := by
  obtain ⟨ticket, job, routed, found, rfl, table, linked⟩ := accounted.handled calling stepped
  have replies := running_handler accounted.router accounted.table calling
  obtain ⟨flowing, listening, fresh⟩ := accounted.traffic sends
  have moved := Traffic.step_stepped sends
  refine { accounted with
    router := Router.step_serial stepped accounted.router
    table
    linked
    net := flowing
    listening
    fresh
    balance := ?_
    calls := ?_
    read := fun p => ?_ }
  · simp only [Gateway.answer, routed, Option.toList_some]
    exact answer_balance accounted routed
  · simp only [Gateway.answer, routed, Option.toList_some]
    rw [moved.calls, List.filterMap_append, ← accounted.calls]
    simp [found, Job.call, replies, answers, TcpServer.Action.sends]
  · cases TcpServer.step_heard moved.server accounted.net.registry accounted.listening with
    | nothing delivered _ _ =>
        rw [messages_eq, delivered, ← messages_eq]
        exact accounted.read p

theorem Accounted.served {g : Gateway n} (accounted : Accounted g) {request : TcpServer.Action} {net : Traffic}
    {sessions : SessionMgr} {signalled : Bool} (stepped : g.net.step request = some net) (sends : request.sends = [])
    (delivered : net.server.delivered = g.net.server.delivered)
    (empty : g.sessions.sessions = ∅ → sessions.sessions = ∅) : Accounted { g with net, sessions, signalled } := by
  obtain ⟨flowing, listening, fresh⟩ := accounted.traffic stepped
  refine { accounted with
    net := flowing
    listening
    fresh
    balance := accounted.balance
    sessions := empty accounted.sessions
    calls := ?_
    read := fun p => ?_ }
  · rw [(Traffic.step_stepped stepped).calls, sends, List.append_nil]
    exact accounted.calls
  · rw [messages_eq, delivered, ← messages_eq]
    exact accounted.read p

theorem Accounted.message {g : Gateway n} (accounted : Accounted g) {request : TcpServer.Action} {net : Traffic}
    {p : Nat} {pkt : Packet} (stepped : g.net.step request = some net) (sends : request.sends = [])
    (idle : g.pending.lookup p = none)
    (delivered : net.server.delivered = Function.update g.net.server.delivered p (g.net.server.delivered p ++ [pkt])) :
    Accounted { g with net, pending := g.pending.insert p ⟨p + 1, pkt⟩ } := by
  obtain ⟨flowing, listening, fresh⟩ := accounted.traffic stepped
  refine { accounted with
    net := flowing
    listening
    fresh
    balance := accounted.balance
    calls := ?_
    read := fun q => ?_
    own := fun q job pending => ?_ }
  · rw [(Traffic.step_stepped stepped).calls, sends, List.append_nil]
    exact accounted.calls
  · have before := accounted.read q
    rw [messages_eq] at before ⊢
    simp only [jobsOf] at before ⊢
    rw [delivered]
    by_cases same : q = p
    · subst same
      rw [idle] at before
      simp only [Option.map_none, Option.toList_none, List.append_nil] at before
      simpa using before
    · simpa [same, AList.lookup_insert_ne same] using before
  · by_cases same : q = p
    · subst same
      obtain rfl : _ = job := by simpa using pending
      rfl
    · exact accounted.own q job (by rwa [AList.lookup_insert_ne same] at pending)

theorem step_accounted {g next : Gateway n} {action : Action n} (stepped : g.step action = some next)
    (accounted : Accounted g) : Accounted next := by
  cases step_effect stepped accounted.net.registry accounted.listening with
  | net _ moved sends delivered empty => exact accounted.served moved sends delivered empty
  | message _ moved sends idle delivered => exact accounted.message moved sends idle delivered
  | append found moved => exact accounted.append found moved
  | pool _ plain idle _ moved => exact accounted.plain plain idle moved
  | execute holding found moved calls => exact accounted.execute holding found moved calls
  | missed moved outside => exact accounted.missed moved outside
  | entered moved inside => exact accounted.entered moved inside
  | sent calling moved answers sends => exact accounted.sent calling moved answers sends
  | noted calling moved silent => exact accounted.noted calling moved silent
  | unlock moved => exact accounted.unlock moved

theorem exec_accounted {actions : List (Action n)} {g : Gateway n} (ran : exec step {} actions = some g) :
    Accounted g :=
  exec_invariant (fun _ _ _ stepped accounted => step_accounted stepped accounted) ran initial_accounted

end Gateway

end ServerFramework.Example
