import ServerFramework.Business.Router
import ServerFramework.Library.Draining

namespace ServerFramework.Business
open Protocol Library

namespace Router

variable {ι η : Type}

def Phase.inside : Phase η → Bool
  | .calling _ _ _ | .called | .reentering _ => true
  | .outside | .locking _ => false

/-! ## One call at a time -/

theorem registered_snoc (cmd : UInt16) (calls : List (Call η)) (call : Call η) :
    registered cmd (calls ++ [call]) = match call with
      | .reg other handler => if other = cmd then some handler else registered cmd calls
      | .unreg other => if other = cmd then none else registered cmd calls
      | _ => registered cmd calls := by
  rw [registered, List.foldl_append]
  cases call <;> rfl

def AsLogged (log : List (Call η × Option η)) : Prop :=
  ∀ before call found after, log = before ++ (call, found) :: after →
    found = registered call.cmd (before.map Prod.fst)

theorem AsLogged.snoc {log : List (Call η × Option η)} (logged : AsLogged log) {call : Call η} {found : Option η}
    (current : found = registered call.cmd (log.map Prod.fst)) : AsLogged (log ++ [(call, found)]) := by
  intro before other seen after split
  rcases List.eq_nil_or_concat after with rfl | ⟨front, last, rfl⟩
  · obtain ⟨rfl, same⟩ := List.append_inj' split rfl
    obtain ⟨rfl, rfl⟩ := Prod.mk.inj (List.singleton_inj.mp same)
    exact current
  · rw [List.concat_eq_append, ← List.cons_append, ← List.append_assoc] at split
    exact logged before other seen front (List.append_inj' split rfl).1

def LastLogged (log : List (Call η × Option η)) (phase : Phase η) : Prop :=
  ∀ handler sessionId pkt, phase = .calling handler sessionId pkt →
    log.getLast? = some (.route sessionId pkt, some handler)

/-- The lock is held while a handler runs, and nothing has happened to the router since the lookup that led to it. -/
structure Serial (router : Router ι η) : Prop where
  holder : ∀ i, (router.phases i).inside = true ↔ router.mutex = some i
  current : ∀ cmd, router.handlers.lookup cmd = registered cmd (router.log.map Prod.fst)
  logged : AsLogged router.log
  last : ∀ i, LastLogged router.log (router.phases i)

theorem initial_serial : Serial ({} : Router ι η) where
  holder := by simp [Phase.inside]
  current cmd := by simp [registered]
  logged := by simp [AsLogged]
  last := by simp [LastLogged]

theorem Serial.alone {router : Router ι η} (serial : Serial router) {i j : ι}
    (inside : (router.phases i).inside = true) (other : j ≠ i) : (router.phases j).inside = false := by
  have held := (serial.holder i).mp inside
  rw [← Bool.not_eq_true, serial.holder j, held]
  exact fun same => other (Option.some.inj same).symm

theorem Serial.nobody {router : Router ι η} (serial : Serial router) (free : router.mutex = none) (i : ι) :
    (router.phases i).inside ≠ true := by
  rw [ne_eq, serial.holder i, free]
  simp

theorem Serial.running {router : Router ι η} (serial : Serial router) {i : ι} {handler : η} {sessionId : Int}
    {pkt : Packet} (calling : router.phases i = .calling handler sessionId pkt) :
    router.handlers.lookup pkt.cmd = some handler := by
  obtain ⟨before, log⟩ := List.getLast?_eq_some_iff.mp (serial.last i handler sessionId pkt calling)
  rw [serial.current, log, List.map_append, List.map_singleton, registered_snoc]
  exact (serial.logged before _ _ [] log).symm

variable [DecidableEq ι]

/-! ## What a step can do -/

inductive Effect (router : Router ι η) : Action ι η → Router ι η → Prop
  | call {i : ι} {call : Call η} (outside : router.phases i = .outside) :
      Effect router (.call i call) (router.setPhase i (.locking call))
  | reenter {i : ι} {call : Call η} {handler : η} {sessionId : Int} {pkt : Packet}
      (calling : router.phases i = .calling handler sessionId pkt) :
      Effect router (.call i call) (router.setPhase i (.reentering call))
  | enter {i : ι} {call : Call η} (locking : router.phases i = .locking call) (free : router.mutex = none) :
      Effect router (.enter i)
        { router.locked i call with log := router.log ++ [(call, router.handlers.lookup call.cmd)] }
  | handle {i : ι} {handler : η} {sessionId : Int} {pkt : Packet}
      (calling : router.phases i = .calling handler sessionId pkt) :
      Effect router (.handle i) (router.setPhase i .called)
  | unlock {i : ι} (called : router.phases i = .called) :
      Effect router (.unlock i) { router.setPhase i .outside with mutex := none }

theorem step_effect {router next : Router ι η} {action : Action ι η} (stepped : router.step action = some next) :
    Effect router action next := by
  cases action with
  | call i call =>
      simp only [step, begin] at stepped
      split at stepped
      · rename_i outside
        obtain rfl := Option.some.inj stepped
        exact .call outside
      · rename_i calling
        obtain rfl := Option.some.inj stepped
        exact .reenter calling
      · cases stepped
  | enter i =>
      simp only [step, enter] at stepped
      split at stepped
      · rename_i call locking
        obtain ⟨free, rfl⟩ := by simpa only [Option.ite_none_right_eq_some, Option.some.injEq] using stepped
        exact .enter locking (Option.isNone_iff_eq_none.mp free)
      · cases stepped
  | handle i =>
      simp only [step] at stepped
      split at stepped
      · rename_i calling
        obtain rfl := Option.some.inj stepped
        exact .handle calling
      · cases stepped
  | unlock i =>
      simp only [step] at stepped
      split at stepped
      · rename_i called
        obtain rfl := Option.some.inj stepped
        exact .unlock called
      · cases stepped

theorem Serial.move {router : Router ι η} (serial : Serial router) {i : ι} {phase : Phase η} {mutex : Option ι}
    (own : phase.inside = true ↔ mutex = some i)
    (others : ∀ j, j ≠ i → ((router.phases j).inside = true ↔ mutex = some j))
    (running : ∀ handler sessionId pkt, phase ≠ .calling handler sessionId pkt) :
    Serial { router with phases := Function.update router.phases i phase, mutex } where
  holder := (Function.forall_update_iff router.phases fun j p => p.inside = true ↔ mutex = some j).mpr ⟨own, others⟩
  current := serial.current
  logged := serial.logged
  last := by
    refine (Function.forall_update_iff router.phases fun _ => LastLogged router.log).mpr ⟨?_, fun j _ => serial.last j⟩
    exact fun handler sessionId pkt calling => absurd calling (running handler sessionId pkt)

theorem Serial.leave {router : Router ι η} (serial : Serial router) (free : router.mutex = none) {i : ι}
    {call : Call η} {handlers : AList fun _ : UInt16 => η}
    (current : ∀ cmd, handlers.lookup cmd = registered cmd (router.log.map Prod.fst ++ [call])) :
    Serial { router.setPhase i .outside with
      handlers
      log := router.log ++ [(call, router.handlers.lookup call.cmd)] } where
  holder := by
    refine (Function.forall_update_iff router.phases fun j p => p.inside = true ↔ router.mutex = some j).mpr ⟨?_, ?_⟩
    · simp [Phase.inside, free]
    · exact fun j _ => serial.holder j
  current cmd := by
    rw [List.map_append]
    exact current cmd
  logged := serial.logged.snoc (serial.current call.cmd)
  last := by
    refine (Function.forall_update_iff router.phases fun _ => LastLogged _).mpr ⟨by simp [LastLogged], ?_⟩
    intro j _ handler sessionId pkt calling
    exact absurd (by rw [calling]; rfl) (serial.nobody free j)

theorem Serial.calls {router : Router ι η} (serial : Serial router) (free : router.mutex = none) {i : ι}
    {sessionId : Int} {pkt : Packet} {handler : η} (found : router.handlers.lookup pkt.cmd = some handler) :
    Serial { router.setPhase i (.calling handler sessionId pkt) with
      mutex := some i
      log := router.log ++ [(.route sessionId pkt, router.handlers.lookup pkt.cmd)] } where
  holder := by
    refine (Function.forall_update_iff router.phases fun j p => p.inside = true ↔ some i = some j).mpr ⟨?_, ?_⟩
    · simp [Phase.inside]
    · exact fun j other => ⟨fun inside => absurd inside (serial.nobody free j),
        fun same => absurd (Option.some.inj same).symm other⟩
  current cmd := by
    rw [List.map_append, List.map_singleton, registered_snoc]
    exact serial.current cmd
  logged := serial.logged.snoc (serial.current pkt.cmd)
  last := by
    refine (Function.forall_update_iff router.phases fun _ => LastLogged _).mpr ⟨?_, ?_⟩
    · intro h s pkt' same
      obtain ⟨rfl, rfl, rfl⟩ := Phase.calling.inj same
      rw [List.getLast?_concat, found]
    · intro j _ h s pkt' calling
      exact absurd (by rw [calling]; rfl) (serial.nobody free j)

theorem Serial.enter {router : Router ι η} (serial : Serial router) (free : router.mutex = none) (i : ι)
    (call : Call η) :
    Serial { router.locked i call with log := router.log ++ [(call, router.handlers.lookup call.cmd)] } := by
  cases call with
  | reg cmd handler =>
      refine serial.leave free fun other => ?_
      rw [registered_snoc, ← serial.current other]
      by_cases same : cmd = other
      · subst same
        simp [locked]
      · simp [locked, same, AList.lookup_insert_ne (Ne.symm same)]
  | unreg cmd =>
      refine serial.leave free fun other => ?_
      rw [registered_snoc, ← serial.current other]
      by_cases same : cmd = other
      · subst same
        simp [locked]
      · simp [locked, same, AList.lookup_erase_ne (Ne.symm same)]
  | has cmd =>
      refine serial.leave free fun other => ?_
      rw [registered_snoc]
      exact serial.current other
  | route sessionId pkt =>
      rw [locked]
      split
      · refine serial.leave free fun other => ?_
        rw [registered_snoc]
        exact serial.current other
      · rename_i handler found
        exact serial.calls free found

theorem step_serial {router next : Router ι η} {action : Action ι η} (stepped : router.step action = some next)
    (serial : Serial router) : Serial next := by
  cases step_effect stepped with
  | @call i call outside =>
      refine serial.move ?_ (fun j _ => serial.holder j) (by simp)
      rw [← serial.holder i, outside]
      simp [Phase.inside]
  | @reenter i call handler sessionId pkt calling =>
      refine serial.move ?_ (fun j _ => serial.holder j) (by simp)
      rw [← serial.holder i, calling]
      simp [Phase.inside]
  | enter locking free => exact serial.enter free _ _
  | @handle i handler sessionId pkt calling =>
      refine serial.move ?_ (fun j _ => serial.holder j) (by simp)
      rw [← serial.holder i, calling]
      simp [Phase.inside]
  | @unlock i called =>
      refine serial.move (by simp [Phase.inside]) (fun j other => ?_) (by simp)
      rw [serial.alone (by rw [called]; rfl) other]
      simp

theorem exec_serial {router : Router ι η} {actions : List (Action ι η)} (ran : exec step {} actions = some router) :
    Serial router :=
  exec_invariant (fun _ _ _ stepped serial => step_serial stepped serial) ran initial_serial

/-- The calls behave as if made one after the other, and no handler is replaced or removed while it runs. -/
theorem router_serial (actions : List (Action ι η)) (router : Router ι η) (ran : exec step {} actions = some router) :
    (∀ cmd, router.handlers.lookup cmd = registered cmd (router.log.map Prod.fst)) ∧
    (∀ before call found after, router.log = before ++ (call, found) :: after →
      found = registered call.cmd (before.map Prod.fst)) ∧
    ∀ i handler sessionId pkt, router.phases i = .calling handler sessionId pkt →
      router.log.getLast? = some (.route sessionId pkt, some handler) ∧ router.handlers.lookup pkt.cmd = some handler ∧
      ∀ j, j ≠ i → (router.phases j).inside = false := by
  have serial := exec_serial ran
  refine ⟨serial.current, serial.logged, fun i handler sessionId pkt calling => ?_⟩
  exact ⟨serial.last i handler sessionId pkt calling, serial.running calling,
    fun j other => serial.alone (by rw [calling]; rfl) other⟩

/-- Worker `0` runs the handler of command 2 while worker `1` waits to remove it. -/
def removalWaits : List (Action (Fin 2) Nat) :=
  [.call 0 (.reg 2 7), .enter 0, .call 0 (.route 1 ⟨2, []⟩), .call 1 (.unreg 2), .enter 0]

theorem router_serial_of_removalWaits :
    ∃ router, exec step {} removalWaits = some router ∧ router.phases 0 = .calling 7 1 ⟨2, []⟩ ∧
      router.handlers.lookup 2 = some 7 := by
  obtain ⟨router, ran⟩ : ∃ router, exec step {} removalWaits = some router := ⟨_, rfl⟩
  have calling : router.phases 0 = .calling 7 1 ⟨2, []⟩ := by
    rw [← Option.some.inj ran]
    rfl
  exact ⟨router, ran, calling, ((router_serial removalWaits router ran).2.2 0 7 1 ⟨2, []⟩ calling).2.1⟩

/-! ## Calls from inside a handler -/

def Action.internal : Action ι η → Bool
  | .call _ _ => false
  | _ => true

theorem reentering_stays {router next : Router ι η} {action : Action ι η} {i : ι} {call : Call η}
    (stepped : router.step action = some next) (serial : Serial router) (stuck : router.phases i = .reentering call) :
    next.phases i = .reentering call ∧ next.log = router.log ∧ next.handlers = router.handlers := by
  have held : router.mutex = some i := (serial.holder i).mp (by rw [stuck]; rfl)
  have own {j : ι} {phase : Phase η} (here : router.phases j ≠ .reentering call) :
      Function.update router.phases j phase i = .reentering call := by
    rw [Function.update_of_ne fun same => here (by rw [← same, stuck]), stuck]
  cases step_effect stepped with
  | call outside => exact ⟨own (by simp [outside]), rfl, rfl⟩
  | reenter calling => exact ⟨own (by simp [calling]), rfl, rfl⟩
  | enter locking free => rw [held] at free; cases free
  | handle calling => exact ⟨own (by simp [calling]), rfl, rfl⟩
  | unlock called => exact ⟨own (by simp [called]), rfl, rfl⟩

def Phase.rank : Phase η → Nat
  | .locking _ => 3
  | .calling _ _ _ => 2
  | .called => 1
  | .outside | .reentering _ => 0

theorem locked_phases (router : Router ι η) (i : ι) (call : Call η) :
    ∃ phase, (router.locked i call).phases = Function.update router.phases i phase ∧ phase.rank < 3 ∧
      ∀ other, phase ≠ .reentering other := by
  cases call with
  | reg | unreg | has => exact ⟨.outside, rfl, by simp [Phase.rank], by simp⟩
  | route sessionId pkt =>
      rw [locked]
      split
      · exact ⟨.outside, rfl, by simp [Phase.rank], by simp⟩
      · rename_i handler _
        exact ⟨.calling handler sessionId pkt, rfl, by simp [Phase.rank], by simp⟩

/-- What a step of the threads themselves does: one phase goes down. -/
theorem internal_phases {router next : Router ι η} {action : Action ι η} (stepped : router.step action = some next)
    (internal : action.internal = true) :
    ∃ i phase, next.phases = Function.update router.phases i phase ∧ phase.rank < (router.phases i).rank ∧
      ∀ call, phase ≠ .reentering call := by
  cases step_effect stepped with
  | call | reenter => cases internal
  | @enter i call locking free =>
      obtain ⟨phase, phases, lower, fresh⟩ := locked_phases router i call
      exact ⟨i, phase, phases, by rw [locking]; exact lower, fresh⟩
  | @handle i handler sessionId pkt calling => exact ⟨i, .called, rfl, by rw [calling]; simp [Phase.rank], by simp⟩
  | @unlock i called => exact ⟨i, .outside, rfl, by rw [called]; simp [Phase.rank], by simp⟩

theorem rest_outside {router : Router ι η} (serial : Serial router) (free : ∀ i call, router.phases i ≠ .reentering call)
    (rest : AtRest step (·.internal = true) router) (i : ι) : router.phases i = .outside := by
  have unlocked : router.mutex = none := by
    cases held : router.mutex with
    | none => rfl
    | some j =>
        have inside := (serial.holder j).mpr held
        have handle := rest (.handle j) rfl
        have unlock := rest (.unlock j) rfl
        simp only [step] at handle unlock
        cases phase : router.phases j with
        | outside | locking => simp [phase, Phase.inside] at inside
        | calling => simp [phase] at handle
        | called => simp [phase] at unlock
        | reentering call => exact absurd phase (free j call)
  have enter := rest (.enter i) rfl
  cases phase : router.phases i with
  | outside => rfl
  | locking call => simp [step, Router.enter, phase, unlocked] at enter
  | calling | called | reentering => exact absurd (by simp [phase, Phase.inside]) (serial.nobody unlocked i)

variable [Fintype ι]

/-- `mutex_` is not recursive: every call gets through if and only if no handler has called the router. -/
theorem router_drains_iff (actions : List (Action ι η)) (router : Router ι η) (ran : exec step {} actions = some router) :
    Settles step (·.internal = true) (fun later => ∀ i, later.phases i = .outside)
      (total Phase.rank router.phases) router ↔ ∀ i call, router.phases i ≠ .reentering call := by
  constructor
  · intro drains i call stuck
    obtain ⟨more, later, calm, run, rest⟩ := drains.ends [] router (by simp) rfl
    have stays : Serial later ∧ later.phases i = .reentering call := by
      refine exec_invariant (P := fun later => Serial later ∧ later.phases i = .reentering call) ?_ run
        ⟨exec_serial ran, stuck⟩
      rintro before action after stepped ⟨serial, stuck⟩
      exact ⟨step_serial stepped serial, (reentering_stays stepped serial stuck).1⟩
    have outside := drains.good more later calm run rest i
    rw [stays.2] at outside
    cases outside
  · intro free
    refine @settles _ _ step (·.internal = true)
      (fun later => Serial later ∧ ∀ i call, later.phases i ≠ .reentering call) _ (fun later => total Phase.rank later.phases)
      ?_ ?_ ?_ router ⟨exec_serial ran, free⟩
    · rintro before action after stepped internal ⟨serial, free⟩
      obtain ⟨i, phase, phases, -, fresh⟩ := internal_phases stepped internal
      refine ⟨step_serial stepped serial, ?_⟩
      rw [phases]
      exact (Function.forall_update_iff before.phases fun _ p => ∀ call, p ≠ .reentering call).mpr
        ⟨fresh, fun j _ => free j⟩
    · rintro before action after stepped internal -
      obtain ⟨i, phase, phases, lower, -⟩ := internal_phases stepped internal
      have moved := total_update Phase.rank before.phases i phase
      rw [phases]
      omega
    · exact fun later ⟨serial, free⟩ rest => rest_outside serial free rest

theorem router_drains_of_removalWaits :
    ∃ router, exec step {} removalWaits = some router ∧
      Settles step (·.internal = true) (fun later => ∀ i, later.phases i = .outside) 5 router := by
  obtain ⟨router, ran⟩ : ∃ router, exec step {} removalWaits = some router := ⟨_, rfl⟩
  have phases : router.phases 0 = .calling 7 1 ⟨2, []⟩ ∧ router.phases 1 = .locking (.unreg 2) := by
    rw [← Option.some.inj ran]
    exact ⟨rfl, rfl⟩
  have measure : total Phase.rank router.phases = 5 := by
    simp [total, phases, Phase.rank]
  have free : ∀ i call, router.phases i ≠ .reentering call :=
    Fin.forall_fin_two.mpr ⟨by simp [phases], by simp [phases]⟩
  exact ⟨router, ran, measure ▸ (router_drains_iff removalWaits router ran).mpr free⟩

end Router

end ServerFramework.Business
