import ServerFramework.Proof.Example.GatewayAnswers

namespace ServerFramework.Example
open Protocol Tcp ServerFramework.Core Business Library

namespace Gateway

variable {n : Nat}

/-! ## What is left to do -/

def work (g : Gateway n) : Nat :=
  41 * g.pending.keys.length + 4 * g.pool.work + total Router.Phase.rank g.router.phases

/-- Nobody has shut the pool down, and it has what its workers need to get on. -/
structure Running (g : Gateway n) : Prop where
  accounted : Accounted g
  live : g.pool.Live
  uncalled : g.pool.shutdown = .uncalled

theorem pending_erase {pending : AList fun _ : Nat => Job} {p : Nat} {job : Job} (found : pending.lookup p = some job) :
    (pending.erase p).keys.length + 1 = pending.keys.length := by
  have member : p ∈ pending.keys := AList.mem_keys.mpr (AList.lookup_isSome.mp (by simp [found]))
  have positive := List.length_pos_of_mem member
  rw [AList.keys_erase, List.length_erase_of_mem member]
  omega

theorem callRank {router next : Router (Fin n) Handler} {i : Fin n} {call : Router.Call Handler}
    (stepped : router.step (.call i call) = some next) :
    total Router.Phase.rank next.phases ≤ total Router.Phase.rank router.phases + 3 := by
  cases Router.step_effect stepped with
  | call outside =>
      have moved := total_update Router.Phase.rank router.phases i (.locking call)
      simp only [Router.Phase.rank] at moved
      simp only [Router.setPhase]
      omega
  | reenter calling =>
      have moved := total_update Router.Phase.rank router.phases i (.reentering call)
      simp only [Router.Phase.rank] at moved
      simp only [Router.setPhase]
      omega

theorem routerRank {router next : Router (Fin n) Handler} {action : Router.Action (Fin n) Handler}
    (stepped : router.step action = some next) (internal : action.internal = true) :
    total Router.Phase.rank next.phases < total Router.Phase.rank router.phases := by
  obtain ⟨i, phase, phases, lower, -⟩ := Router.internal_phases stepped internal
  have moved := total_update Router.Phase.rank router.phases i phase
  rw [phases]
  omega

theorem append_work {pool next : ThreadPool n} {priority : TaskPriority}
    (stepped : ThreadPool.step .shutdown pool (.append priority) = some next) : next.work = pool.work + 10 := by
  cases ThreadPool.step_effect stepped with
  | append =>
      have longer := (ThreadPool.appendPriority_perm pool.tasks ⟨pool.submitted, priority⟩).length_eq
      rw [List.length_cons] at longer
      simp only [ThreadPool.work, longer]
      omega

theorem append_shutdown {pool next : ThreadPool n} {priority : TaskPriority}
    (stepped : ThreadPool.step .shutdown pool (.append priority) = some next) : next.shutdown = pool.shutdown := by
  cases ThreadPool.step_effect stepped with
  | append => rfl

theorem internal_work {g next : Gateway n} {action : Action n} (stepped : g.step action = some next)
    (internal : action.internal = true) (running : Running g) : next.work < g.work := by
  cases step_effect stepped running.accounted.net.registry running.accounted.listening with
  | net outside | message outside => rw [internal] at outside; cases outside
  | append found moved =>
      have fewer := pending_erase found
      have more := append_work moved
      simp only [work]
      omega
  | pool _ _ _ within moved =>
      have lower := ThreadPool.internal_work moved (within internal) running.live
      simp only [work]
      omega
  | execute _ _ moved calls =>
      have lower := ThreadPool.internal_work moved rfl running.live
      have higher := callRank calls
      simp only [work]
      omega
  | missed moved | entered moved | sent _ moved | noted _ moved | unlock moved =>
      have lower := routerRank moved rfl
      simp only [work, answer]
      omega

theorem pool_of_step {g next : Gateway n} {action : Action n} (stepped : g.step action = some next)
    (accounted : Accounted g) :
    next.pool = g.pool ∨ ∃ request, ThreadPool.step .shutdown g.pool request = some next.pool ∧
      (action.internal = true → request.internal = true ∨ request = .append .normal) := by
  cases step_effect stepped accounted.net.registry accounted.listening with
  | append _ moved => exact .inr ⟨_, moved, fun _ => .inr rfl⟩
  | pool _ _ _ within moved => exact .inr ⟨_, moved, fun internal => .inl (within internal)⟩
  | execute _ _ moved => exact .inr ⟨_, moved, fun _ => .inl rfl⟩
  | net | message | missed | entered | sent | noted | unlock => exact .inl rfl

theorem step_running {g next : Gateway n} {action : Action n} (positive : 0 < n) (stepped : g.step action = some next)
    (accounted : Accounted g) (running : g.pool.shutdown = .uncalled → Running g)
    (uncalled : next.pool.shutdown = .uncalled) : Running next := by
  have later := step_accounted stepped accounted
  rcases pool_of_step stepped accounted with same | ⟨request, moved, -⟩
  · exact ⟨later, same ▸ (running (same ▸ uncalled)).live, uncalled⟩
  · have live := (running (ThreadPool.step_uncalled moved uncalled)).live
    exact ⟨later, ThreadPool.step_live positive moved accounted.pool live uncalled, uncalled⟩

theorem exec_running {g : Gateway n} (positive : 0 < n) {actions : List (Action n)} (ran : exec step {} actions = some g)
    (uncalled : g.pool.shutdown = .uncalled) : Running g := by
  refine (exec_invariant (P := fun g : Gateway n => Accounted g ∧ (g.pool.shutdown = .uncalled → Running g)) ?_ ran
    ⟨initial_accounted, fun uncalled => ⟨initial_accounted, ThreadPool.initial_live, uncalled⟩⟩).2 uncalled
  rintro before action after stepped ⟨accounted, running⟩
  exact ⟨step_accounted stepped accounted, step_running positive stepped accounted running⟩

theorem internal_running {g next : Gateway n} {action : Action n} (positive : 0 < n) (stepped : g.step action = some next)
    (internal : action.internal = true) (running : Running g) : Running next := by
  refine step_running positive stepped running.accounted (fun _ => running) ?_
  rcases pool_of_step stepped running.accounted with same | ⟨request, moved, within⟩
  · exact same ▸ running.uncalled
  · rcases within internal with inner | rfl
    · exact (ThreadPool.step_internal moved inner).1.trans running.uncalled
    · exact (append_shutdown moved).trans running.uncalled

theorem internal_messages {g next : Gateway n} {action : Action n} (stepped : g.step action = some next)
    (internal : action.internal = true) (accounted : Accounted g) (p : Nat) : next.messages p = g.messages p := by
  cases step_effect stepped accounted.net.registry accounted.listening with
  | net outside | message outside => rw [internal] at outside; cases outside
  | sent _ _ _ sends =>
      cases TcpServer.step_heard (Traffic.step_stepped sends).server accounted.net.registry accounted.listening with
      | nothing delivered _ _ => rw [messages_eq, delivered, messages_eq]
  | append | pool | execute | missed | entered | noted | unlock => rfl

/-! ## Where it comes to rest -/

theorem handle_enabled {g : Gateway n} {i : Fin n} {handler : Handler} {sid : Int} {pkt : Packet}
    (calling : g.router.phases i = .calling handler sid pkt) : g.step (.handle i) ≠ none := by
  simp only [step, handle, calling, Router.step, Option.bind_some]
  cases handler <;> simp [callHandler, handleLogin, handleData, Traffic.step, TcpServer.step]

theorem rest_phases {g : Gateway n} (accounted : Accounted g) (rest : AtRest step (·.internal = true) g) (i : Fin n) :
    g.router.phases i = .outside := by
  have free : ∀ j, (g.router.phases j).inside = false := by
    intro j
    cases phase : g.router.phases j with
    | outside | locking => rfl
    | calling handler sid pkt => exact absurd (rest (.handle j) rfl) (handle_enabled phase)
    | called =>
        have unlock := rest (.unlock j) rfl
        simp [step, Router.step, phase] at unlock
    | reentering call => exact absurd phase ((accounted.linked j).not_reentering call)
  have unlocked : g.router.mutex = none := by
    cases held : g.router.mutex with
    | none => rfl
    | some j =>
        have inside := (accounted.router.holder j).mpr held
        rw [free j] at inside
        cases inside
  have inside := free i
  cases phase : g.router.phases i with
  | outside => rfl
  | locking call =>
      have still := rest (.enter i) rfl
      simp [step, enter, Router.step, Router.enter, phase, unlocked] at still
  | calling | called | reentering => simp [phase, Router.Phase.inside] at inside

theorem rest_pool {g : Gateway n} (accounted : Accounted g) (rest : AtRest step (·.internal = true) g)
    (outside : ∀ i, g.router.phases i = .outside) :
    AtRest (ThreadPool.step .shutdown) (·.internal = true) g.pool := by
  intro request internal
  have fetched (fetching : fetches request = true) : ThreadPool.step .shutdown g.pool request = none := by
    have still := rest (.worker request) internal
    simpa [step, fetching] using still
  cases request with
  | append | spurious | stop | swap | notifyAll | join => cases internal
  | notifyOne | acquire | evaluate | block | take => exact fetched rfl
  | finish i =>
      have still := rest (.finish i) rfl
      simpa [step, outside i] using still
  | execute i =>
      cases worker : g.pool.workers i with
      | holding task =>
          have known : task.ticket < g.jobs.length := by
            have balance := accounted.pool.balance task.ticket
            have update := ThreadPool.held_update g.pool.workers i .outside task.ticket
            rw [accounted.jobs]
            simp only [worker, Worker.holds, if_true] at update
            split at balance
            · assumption
            · omega
          have still := rest (.execute i) rfl
          simp [step, execute, worker, List.getElem?_eq_getElem known, ThreadPool.step, Router.step, Router.begin,
            outside i] at still
      | _ => simp [ThreadPool.step, worker]

theorem rest_pending {g : Gateway n} (running : Running g) (rest : AtRest step (·.internal = true) g)
    (waiting : ∀ i, g.pool.workers i = .waiting) (p : Nat) : g.pending.lookup p = none := by
  have unlocked : g.pool.queueMutex = none := by
    cases held : g.pool.queueMutex with
    | none => rfl
    | some i =>
        have inside := running.live.locked i held
        rw [waiting i] at inside
        cases inside
  cases found : g.pending.lookup p with
  | none => rfl
  | some job =>
      have still := rest (.append p) rfl
      simp [step, append, found, ThreadPool.step, unlocked] at still

theorem Accounted.all_answered {g : Gateway n} (accounted : Accounted g) (outside : ∀ i, g.router.phases i = .outside)
    (started : ∀ ticket, g.pool.started.count ticket = if ticket < g.pool.submitted then 1 else 0) :
    g.answered.Perm (List.range g.jobs.length) := by
  refine List.perm_iff_count.mpr fun ticket => ?_
  have idle : total (carries ticket) g.routing = 0 := by
    refine Finset.sum_eq_zero fun i _ => ?_
    rw [(accounted.linked i).routing_none (outside i)]
    rfl
  have balance := accounted.balance ticket
  rw [idle, Nat.add_zero, started ticket, ← accounted.jobs] at balance
  rw [← balance, List.count_range]

theorem Running.rest_answered {g : Gateway n} (running : Running g) (positive : 0 < n)
    (rest : AtRest step (·.internal = true) g) : g.pool.tasks = [] ∧ g.pending = ∅ ∧
      ∀ p : Nat, (g.replies (p + 1)).Perm ((g.messages p).filterMap reply) := by
  have accounted := running.accounted
  have outside := rest_phases accounted rest
  have still := rest_pool accounted rest outside
  have waiting := ThreadPool.rest_worker accounted.pool running.live running.uncalled still
  have empty := ThreadPool.rest_empty positive running.live waiting still
  have pending := rest_pending running rest waiting
  have started := ThreadPool.rest_started accounted.pool running.live waiting empty
  have all := accounted.all_answered outside started
  refine ⟨empty, ?_, fun p => ?_⟩
  · refine AList.ext (List.eq_nil_iff_forall_not_mem.mpr fun ⟨p, job⟩ member => ?_)
    have found := AList.mem_lookup_iff.mpr member
    rw [pending p] at found
    cases found
  · rw [← accounted.read p, pending p, accounted.replies_eq]
    simp only [Option.map_none, Option.toList_none, List.append_nil]
    rw [← jobs_repliesOf]
    exact all.filterMap _

/-- Left to itself and not shut down, the gateway comes to rest under every schedule of its threads, and then every
message that was taken off a connection has had its answer, once and on that connection's session. -/
theorem gateway_drains (positive : 0 < n) (actions : List (Action n)) (g : Gateway n)
    (ran : exec step {} actions = some g) (uncalled : g.pool.shutdown = .uncalled) :
    Settles step (·.internal = true) (fun later => later.pool.tasks = [] ∧ later.pending = ∅ ∧
      ∀ p : Nat, (later.replies (p + 1)).Perm ((g.messages p).filterMap reply)) g.work g := by
  have running := exec_running positive ran uncalled
  refine @settles _ _ step (·.internal = true) (fun later => Running later ∧ later.messages = g.messages) _ work
    ?_ ?_ ?_ g ⟨running, rfl⟩
  · rintro before action after stepped internal ⟨running, same⟩
    refine ⟨internal_running positive stepped internal running, ?_⟩
    rw [← same]
    exact funext (internal_messages stepped internal running.accounted)
  · rintro before action after stepped internal ⟨running, -⟩
    exact internal_work stepped internal running
  · rintro later ⟨running, same⟩ rest
    rw [← same]
    exact running.rest_answered positive rest

theorem gateway_drains_of_twoMessages :
    ∃ g : Gateway 2, exec step {} twoMessages = some g ∧
      g.messages 0 = [⟨cmdLogin, []⟩, ⟨cmdData, [7]⟩] ∧
      Settles step (·.internal = true) (fun later => later.pool.tasks = [] ∧ later.pending = ∅ ∧
        ∀ p : Nat, (later.replies (p + 1)).Perm ((g.messages p).filterMap reply)) g.work g := by
  obtain ⟨g, ran⟩ : ∃ g : Gateway 2, exec step {} twoMessages = some g := ⟨_, rfl⟩
  have facts : g.pool.shutdown = .uncalled ∧ g.messages 0 = [⟨cmdLogin, []⟩, ⟨cmdData, [7]⟩] := by
    rw [← Option.some.inj ran]
    exact ⟨rfl, rfl⟩
  exact ⟨g, ran, facts.2, gateway_drains (by decide) twoMessages g ran facts.1⟩

end Gateway

end ServerFramework.Example
