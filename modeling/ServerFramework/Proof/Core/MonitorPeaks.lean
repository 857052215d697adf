import Mathlib.Data.List.Perm.Basic
import ServerFramework.Core.Monitor

namespace ServerFramework.Core
open Library

namespace Monitor

/-! ## The two loops as threads that raise one variable -/

def Phase.connecting : Phase → LockFreeMax.Phase Int
  | .loadingPeak total => .loading total
  | .raisingPeak total peak => .trying total peak
  | .connected total => .done total
  | .countingAlive | .countingTotal | .storingRss _ | .loadingMemoryPeak _ | .raisingMemoryPeak _ _ | .refreshed _
  | .unmeasured => .outside

def Phase.measuring : Phase → LockFreeMax.Phase Nat
  | .loadingMemoryPeak rssKb => .loading rssKb
  | .raisingMemoryPeak rssKb peak => .trying rssKb peak
  | .refreshed rssKb => .done rssKb
  | .countingAlive | .countingTotal | .loadingPeak _ | .raisingPeak _ _ | .connected _ | .storingRss _
  | .unmeasured => .outside

theorem raisePeak_connecting (total peak : Int) :
    (raisePeak total peak).connecting = LockFreeMax.Phase.test total peak := by
  unfold raisePeak LockFreeMax.Phase.test
  split <;> rfl

theorem raiseMemoryPeak_measuring (rssKb peak : Nat) :
    (raiseMemoryPeak rssKb peak).measuring = LockFreeMax.Phase.test rssKb peak := by
  unfold raiseMemoryPeak LockFreeMax.Phase.test
  split <;> rfl

/-- What the call to publish and the call that has published agree in. -/
theorem raisePeak_agree {β : Type} {f : Phase → β} {total peak : Int} {b : β} (raising : f (.raisingPeak total peak) = b)
    (connected : f (.connected total) = b) : f (raisePeak total peak) = b := by
  unfold raisePeak
  split
  · exact raising
  · exact connected

theorem raiseMemoryPeak_agree {β : Type} {f : Phase → β} {rssKb peak : Nat} {b : β}
    (raising : f (.raisingMemoryPeak rssKb peak) = b) (refreshed : f (.refreshed rssKb) = b) :
    f (raiseMemoryPeak rssKb peak) = b := by
  unfold raiseMemoryPeak
  split
  · exact raising
  · exact refreshed

inductive Turns (m : Monitor) : Phase → Monitor → Phase → Prop
  | alive : Turns m .countingAlive { m with connectionsAlive := int32 (m.connectionsAlive + 1) } .countingTotal
  | total : Turns m .countingTotal { m with connectionsTotal := int32 (m.connectionsTotal + 1) }
      (.loadingPeak (int32 (m.connectionsTotal + 1)))
  | load {total peak : Int} (had : m.connectionsPeak.Had peak) : Turns m (.loadingPeak total) m (raisePeak total peak)
  | exchange {total : Int} : Turns m (.raisingPeak total m.connectionsPeak.value)
      { m with connectionsPeak := m.connectionsPeak.store total } (.connected total)
  | fail {total expected peak : Int} (had : m.connectionsPeak.Had peak) :
      Turns m (.raisingPeak total expected) m (raisePeak total peak)
  | measure {rssKb : Nat} : Turns m (.storingRss rssKb) { m with memoryRssKb := rssKb } (.loadingMemoryPeak rssKb)
  | loadMemory {rssKb peak : Nat} (had : m.memoryPeakRssKb.Had peak) :
      Turns m (.loadingMemoryPeak rssKb) m (raiseMemoryPeak rssKb peak)
  | exchangeMemory {rssKb : Nat} : Turns m (.raisingMemoryPeak rssKb m.memoryPeakRssKb.value)
      { m with memoryPeakRssKb := m.memoryPeakRssKb.store rssKb } (.refreshed rssKb)
  | failMemory {rssKb expected peak : Nat} (had : m.memoryPeakRssKb.Had peak) :
      Turns m (.raisingMemoryPeak rssKb expected) m (raiseMemoryPeak rssKb peak)

theorem turn_cases {m after : Monitor} {operation : Operation} {phase later : Phase}
    (turned : m.turn operation phase = some (after, later)) : Turns m phase after later := by
  cases operation with
  | effect =>
      cases phase with
      | countingAlive =>
          cases turned
          exact .alive
      | countingTotal =>
          cases turned
          exact .total
      | storingRss rssKb =>
          cases turned
          exact .measure
      | raisingPeak total peak =>
          simp only [turn, Option.ite_none_right_eq_some, Option.some.injEq, Prod.mk.injEq] at turned
          obtain ⟨rfl, rfl, rfl⟩ := turned
          exact .exchange
      | raisingMemoryPeak rssKb peak =>
          simp only [turn, Option.ite_none_right_eq_some, Option.some.injEq, Prod.mk.injEq] at turned
          obtain ⟨rfl, rfl, rfl⟩ := turned
          exact .exchangeMemory
      | _ => cases turned
  | read back =>
      cases phase with
      | loadingPeak total =>
          obtain ⟨peak, read, ended⟩ := Option.map_eq_some_iff.mp turned
          cases ended
          exact .load (Atomic.readAt_had read)
      | raisingPeak total expected =>
          obtain ⟨peak, read, ended⟩ := Option.map_eq_some_iff.mp turned
          cases ended
          exact .fail (Atomic.readAt_had read)
      | loadingMemoryPeak rssKb =>
          obtain ⟨peak, read, ended⟩ := Option.map_eq_some_iff.mp turned
          cases ended
          exact .loadMemory (Atomic.readAt_had read)
      | raisingMemoryPeak rssKb expected =>
          obtain ⟨peak, read, ended⟩ := Option.map_eq_some_iff.mp turned
          cases ended
          exact .failMemory (Atomic.readAt_had read)
      | _ => cases turned

theorem Turns.connecting {m after : Monitor} {phase later : Phase} (turns : Turns m phase after later) :
    LockFreeMax.Turn m.connectionsPeak phase.connecting after.connectionsPeak later.connecting := by
  cases turns with
  | alive | measure | exchangeMemory => exact .stay _
  | total => exact .start _
  | load had =>
      rw [raisePeak_connecting]
      exact .load had
  | exchange => exact .exchange
  | fail had =>
      rw [raisePeak_connecting]
      exact .fail had
  | loadMemory had | failMemory had =>
      rw [@raiseMemoryPeak_agree _ Phase.connecting _ _ .outside rfl rfl]
      exact .stay _

theorem Turns.measuring {m after : Monitor} {phase later : Phase} (turns : Turns m phase after later) :
    LockFreeMax.Turn m.memoryPeakRssKb phase.measuring after.memoryPeakRssKb later.measuring := by
  cases turns with
  | alive | total | exchange => exact .stay _
  | measure => exact .start _
  | load had | fail had =>
      rw [@raisePeak_agree _ Phase.measuring _ _ .outside rfl rfl]
      exact .stay _
  | loadMemory had =>
      rw [raiseMemoryPeak_measuring]
      exact .load had
  | exchangeMemory => exact .exchange
  | failMemory had =>
      rw [raiseMemoryPeak_measuring]
      exact .fail had

/-- A loop of the monitor: its variable and the part of a call that the loop is, with what makes every run of the
monitor a run of that loop. -/
structure Loop (α : Type) [LinearOrder α] where
  cell : Monitor → Atomic α
  view : Phase → LockFreeMax.Phase α
  connecting : view .countingAlive = .outside
  measuring : ∀ rssKb, view (.storingRss rssKb) = .outside
  unmeasured : view .unmeasured = .outside
  disconnecting : ∀ m, cell (onDisconnect m) = cell m
  turns : ∀ m phase after later, Turns m phase after later →
    LockFreeMax.Turn (cell m) (view phase) (cell after) (view later)

def connectionsLoop : Loop Int where
  cell := connectionsPeak
  view := Phase.connecting
  connecting := rfl
  measuring _ := rfl
  unmeasured := rfl
  disconnecting _ := rfl
  turns _ _ _ _ := Turns.connecting

def memoryLoop : Loop Nat where
  cell := memoryPeakRssKb
  view := Phase.measuring
  connecting := rfl
  measuring _ := rfl
  unmeasured := rfl
  disconnecting _ := rfl
  turns _ _ _ _ := Turns.measuring

/-! ## One step -/

def Phase.origin : Phase → Action
  | .countingAlive | .countingTotal | .loadingPeak _ | .raisingPeak _ _ | .connected _ => .onConnect
  | .storingRss rssKb | .loadingMemoryPeak rssKb | .raisingMemoryPeak rssKb _ | .refreshed rssKb => .refresh (some rssKb)
  | .unmeasured => .refresh none

/-- Where a call begins. -/
inductive Phase.Fresh : Phase → Prop
  | countingAlive : Fresh .countingAlive
  | storingRss (rssKb : Nat) : Fresh (.storingRss rssKb)
  | unmeasured : Fresh .unmeasured

inductive Moves (s : Threads) : Action → Threads → Prop
  | enter {phase : Phase} (fresh : phase.Fresh) : Moves s phase.origin (s.begin phase)
  | onDisconnect : Moves s .onDisconnect { s with monitor := s.monitor.onDisconnect }
  | advance {i : Nat} {operation : Operation} {phase later : Phase} {monitor : Monitor} (here : s.calls[i]? = some phase)
      (turns : Turns s.monitor phase monitor later) : Moves s (.advance i operation) ⟨monitor, s.calls.set i later⟩

theorem step_moves {s t : Threads} {action : Action} (stepped : s.step action = some t) : Moves s action t := by
  cases action with
  | onConnect =>
      cases stepped
      exact .enter .countingAlive
  | refresh usage =>
      cases usage with
      | none =>
          cases stepped
          exact .enter .unmeasured
      | some rssKb =>
          cases stepped
          exact .enter (.storingRss rssKb)
  | onDisconnect =>
      cases stepped
      exact .onDisconnect
  | advance i operation =>
      obtain ⟨phase, here, rest⟩ := Option.bind_eq_some_iff.mp stepped
      obtain ⟨⟨monitor, later⟩, turned, rfl⟩ := Option.map_eq_some_iff.mp rest
      exact .advance here (turn_cases turned)

/-! ## Whole runs -/

namespace Loop

variable {α : Type} [LinearOrder α] (loop : Loop α)

def state (s : Threads) : LockFreeMax.State α := ⟨loop.cell s.monitor, s.calls.map loop.view⟩

theorem begin_step (s : Threads) {phase : Phase} (new : loop.view phase = .outside) :
    LockFreeMax.Step (loop.state s) (loop.state (s.begin phase)) := by
  rw [Threads.begin, state, state, List.map_append, List.map_singleton, new]
  exact .enter

theorem fresh_outside {phase : Phase} (fresh : phase.Fresh) : loop.view phase = .outside := by
  cases fresh with
  | countingAlive => exact loop.connecting
  | storingRss rssKb => exact loop.measuring rssKb
  | unmeasured => exact loop.unmeasured

theorem step_simulated {s t : Threads} {action : Action} (stepped : s.step action = some t) :
    Relation.ReflTransGen LockFreeMax.Step (loop.state s) (loop.state t) := by
  cases step_moves stepped with
  | enter fresh => exact .single (loop.begin_step s (loop.fresh_outside fresh))
  | onDisconnect => rw [state, state, loop.disconnecting]
  | @advance i operation phase later monitor here turns =>
      have seen : (s.calls.map loop.view)[i]? = some (loop.view phase) := by
        rw [List.getElem?_map, here]
        rfl
      rw [state, state, List.map_set]
      exact .single (.turn seen (loop.turns _ _ _ _ turns))

theorem run_good {initial : α} {s t : Threads} {actions : List Action} (ran : exec Threads.step s actions = some t)
    (good : LockFreeMax.Good initial (loop.state s)) :
    LockFreeMax.Good initial (loop.state t) ∧ (loop.cell s.monitor).value ≤ (loop.cell t.monitor).value :=
  LockFreeMax.run_good (exec_simulated (fun _ _ _ => loop.step_simulated) ran) good

end Loop

theorem done_connecting {calls : List Phase} {total : Int} :
    .done total ∈ calls.map Phase.connecting ↔ .connected total ∈ calls := by
  constructor
  · intro member
    obtain ⟨phase, here, done⟩ := List.mem_map.mp member
    cases phase with
    | connected total =>
        cases done
        exact here
    | _ => cases done
  · exact List.mem_map_of_mem

theorem done_measuring {calls : List Phase} {rssKb : Nat} :
    .done rssKb ∈ calls.map Phase.measuring ↔ .refreshed rssKb ∈ calls := by
  constructor
  · intro member
    obtain ⟨phase, here, done⟩ := List.mem_map.mp member
    cases phase with
    | refreshed rssKb =>
        cases done
        exact here
    | _ => cases done
  · exact List.mem_map_of_mem

/-! ## The calls against the actions -/

def Action.begins : Action → Bool
  | .onConnect | .refresh _ => true
  | .onDisconnect | .advance _ _ => false

/-- What the call has counted up to. -/
def Phase.total : Phase → Option Int
  | .loadingPeak total | .raisingPeak total _ | .connected total => some total
  | .countingAlive | .countingTotal | .storingRss _ | .loadingMemoryPeak _ | .raisingMemoryPeak _ _ | .refreshed _
  | .unmeasured => none

theorem origin_begins (phase : Phase) : phase.origin.begins = true := by cases phase <;> rfl

theorem Phase.Fresh.uncounted {phase : Phase} (fresh : phase.Fresh) : phase.total = none := by cases fresh <;> rfl

theorem Turns.origin {m after : Monitor} {phase later : Phase} (turns : Turns m phase after later) :
    later.origin = phase.origin := by
  cases turns with
  | load | fail => exact raisePeak_agree rfl rfl
  | loadMemory | failMemory => exact raiseMemoryPeak_agree rfl rfl
  | _ => rfl

theorem Turns.counts {m after : Monitor} {phase later : Phase} (turns : Turns m phase after later) :
    (later.total = phase.total ∧ after.connectionsTotal = m.connectionsTotal) ∨
    (phase.total = none ∧ later.total = some (int32 (m.connectionsTotal + 1)) ∧
      after.connectionsTotal = int32 (m.connectionsTotal + 1)) := by
  cases turns with
  | total => exact .inr ⟨rfl, rfl, rfl⟩
  | load | fail => exact .inl ⟨raisePeak_agree rfl rfl, rfl⟩
  | loadMemory | failMemory => exact .inl ⟨raiseMemoryPeak_agree rfl rfl, rfl⟩
  | _ => exact .inl ⟨rfl, rfl⟩

theorem step_origins {s t : Threads} {action : Action} (moves : Moves s action t) :
    t.calls.map Phase.origin = s.calls.map Phase.origin ++ [action].filter Action.begins := by
  cases moves with
  | @enter phase fresh =>
      rw [Threads.begin, List.map_append, List.map_singleton, List.filter_cons_of_pos (origin_begins phase)]
      rfl
  | onDisconnect => exact (List.append_nil _).symm
  | @advance i operation phase later monitor here turns =>
      have same : (s.calls.map Phase.origin)[i]? = some later.origin := by
        rw [List.getElem?_map, here, turns.origin]
        rfl
      obtain ⟨inside, value⟩ := List.getElem?_eq_some_iff.mp same
      rw [List.map_set, ← value, List.set_getElem_self]
      exact (List.append_nil _).symm

theorem exec_origins {s : Threads} {actions : List Action} (ran : exec Threads.step {} actions = some s) :
    s.calls.map Phase.origin = actions.filter Action.begins := by
  have preserved (done : List Action) (before : Threads) (action : Action) (after : Threads)
      (stepped : before.step action = some after)
      (same : before.calls.map Phase.origin = done.filter Action.begins) :
      after.calls.map Phase.origin = (done ++ [action]).filter Action.begins := by
    rw [step_origins (step_moves stepped), same, List.filter_append]
  have nothing : ({} : Threads).calls.map Phase.origin = ([] : List Action).filter Action.begins := rfl
  exact exec_history preserved ran nothing

/-- The calls have counted from 1 on, each its own number. -/
def Counted (s : Threads) : Prop :=
  ∃ k : Nat, s.monitor.connectionsTotal = int32 k ∧
    (s.calls.filterMap Phase.total).Perm ((List.range k).map fun i : Nat => int32 (i + 1))

theorem step_counted {s t : Threads} {action : Action} (moves : Moves s action t) (counted : Counted s) : Counted t := by
  obtain ⟨k, total, numbers⟩ := counted
  cases moves with
  | enter fresh =>
      refine ⟨k, total, ?_⟩
      rw [Threads.begin, List.filterMap_append, List.filterMap_cons_none fresh.uncounted]
      simpa using numbers
  | onDisconnect => exact ⟨k, total, numbers⟩
  | @advance i operation phase later monitor here turns =>
      obtain ⟨inside, value⟩ := List.getElem?_eq_some_iff.mp here
      have before := (List.getElem_cons_eraseIdx_perm inside).filterMap Phase.total
      have after := (List.set_perm_cons_eraseIdx inside later).filterMap Phase.total
      rw [value] at before
      rcases turns.counts with ⟨same, still⟩ | ⟨uncounted, number, more⟩
      · refine ⟨k, still.trans total, after.trans (.trans ?_ numbers)⟩
        rwa [List.filterMap_cons, same, ← List.filterMap_cons]
      · have next : int32 (s.monitor.connectionsTotal + 1) = int32 ((k : Int) + 1) := by
          rw [total]
          exact Int.bmod_add_bmod
        refine ⟨k + 1, more.trans next, after.trans ?_⟩
        rw [List.filterMap_cons_some number, next, List.range_succ, List.map_append, List.map_singleton]
        rw [List.filterMap_cons_none uncounted] at before
        exact (((before.trans numbers).cons _).trans (List.perm_append_singleton _ _).symm)

theorem exec_counted {s : Threads} {actions : List Action} (ran : exec Threads.step {} actions = some s) : Counted s :=
  exec_invariant (fun _ _ _ stepped counted => step_counted (step_moves stepped) counted) ran ⟨0, rfl, .refl _⟩

/-- At every moment each peak is the greatest of 0, which it starts with, and what the calls that have returned
published, and it never decreases. The calls are those that were made, and each `on_connect` publishes the number of
its own that it has counted. -/
theorem peaks_are_maxima (earlier later : List Action) (s t : Threads) (first : exec Threads.step {} earlier = some s)
    (second : exec Threads.step s later = some t) :
    s.monitor.connectionsPeak.value ≤ t.monitor.connectionsPeak.value ∧
    s.monitor.memoryPeakRssKb.value ≤ t.monitor.memoryPeakRssKb.value ∧
    IsGreatest {value | value = 0 ∨ .connected value ∈ t.calls} t.monitor.connectionsPeak.value ∧
    IsGreatest {value | value = 0 ∨ .refreshed value ∈ t.calls} t.monitor.memoryPeakRssKb.value ∧
    t.calls.map Phase.origin = (earlier ++ later).filter Action.begins ∧ Counted t := by
  have connected := (connectionsLoop.run_good first (LockFreeMax.initial_good 0)).1
  have measured := (memoryLoop.run_good first (LockFreeMax.initial_good 0)).1
  obtain ⟨connections, raised⟩ := connectionsLoop.run_good second connected
  obtain ⟨measurements, grown⟩ := memoryLoop.run_good second measured
  have whole : exec Threads.step {} (earlier ++ later) = some t := by
    rw [exec_append, first]
    exact second
  refine ⟨raised, grown, ?_, ?_, exec_origins whole, exec_counted whole⟩
  · have greatest := connections.greatest
    simp only [Loop.state, connectionsLoop, done_connecting] at greatest
    exact greatest
  · have greatest := measurements.greatest
    simp only [Loop.state, memoryLoop, done_measuring] at greatest
    exact greatest

/-- Two connections race: the second one publishes first, the first one fails, reads its value and leaves. -/
def race : List Action :=
  [.onConnect, .onConnect, .advance 0 .effect, .advance 0 .effect, .advance 1 .effect, .advance 1 .effect,
    .advance 0 (.read 0), .advance 1 (.read 0), .advance 1 .effect, .advance 0 (.read 0)]

/-- A third one reads an old value, fails twice, the second time spuriously, and takes the peak further. -/
def afterRace : List Action :=
  [.onConnect, .refresh (some 7), .advance 2 .effect, .advance 3 .effect, .advance 2 .effect, .advance 2 (.read 1),
    .advance 2 (.read 0), .advance 2 (.read 0), .advance 2 .effect, .advance 3 (.read 0), .advance 3 .effect]

theorem racing_connections :
    ∃ s t, exec Threads.step {} race = some s ∧ exec Threads.step s afterRace = some t ∧
      s.monitor.connectionsPeak.value = 2 ∧ t.monitor.connectionsPeak.value = 3 ∧
      t.monitor.memoryPeakRssKb.value = 7 ∧
      t.calls.map Phase.origin = [.onConnect, .onConnect, .onConnect, .refresh (some 7)] ∧
      IsGreatest {value | value = 0 ∨ .connected value ∈ t.calls} 3 ∧
      IsGreatest {value | value = 0 ∨ .refreshed value ∈ t.calls} 7 := by
  obtain ⟨s, t, first, second, two, three, seven⟩ : ∃ s t, exec Threads.step {} race = some s ∧
      exec Threads.step s afterRace = some t ∧ s.monitor.connectionsPeak.value = 2 ∧
      t.monitor.connectionsPeak.value = 3 ∧ t.monitor.memoryPeakRssKb.value = 7 := ⟨_, _, rfl, rfl, rfl, rfl, rfl⟩
  obtain ⟨-, -, connections, measurements, origins, -⟩ := peaks_are_maxima race afterRace s t first second
  rw [three] at connections
  rw [seven] at measurements
  exact ⟨s, t, first, second, two, three, seven, origins, connections, measurements⟩

/-! ## A call alone -/

theorem last_turn {m after : Monitor} {operation : Operation} {phase later : Phase} (calls : List Phase)
    (turned : m.turn operation phase = some (after, later)) :
    Threads.step ⟨m, calls ++ [phase]⟩ (.advance calls.length operation) = some ⟨after, calls ++ [later]⟩ := by
  simp [Threads.step, turned]

theorem exec_single {s t : Threads} {action : Action} (stepped : s.step action = some t) :
    exec Threads.step s [action] = some t :=
  exec_cons.mpr ⟨t, stepped, rfl⟩

theorem raise_alone {α : Type} [LinearOrder α] {put : Atomic α → Monitor} {trying : α → α → Phase} {done : α → Phase}
    (exchanges : ∀ cell value, (put cell).turn .effect (trying value cell.value) = some (put (cell.store value), done value))
    (fails : ∀ cell value expected, (put cell).turn (.read 0) (trying value expected) =
      some (put cell, if value > cell.value then trying value cell.value else done value))
    (calls : List Phase) (cell : Atomic α) (value : α) (spurious : Nat) :
    ∃ operations : List Operation,
      exec Threads.step ⟨put cell, calls ++ [if value > cell.value then trying value cell.value else done value]⟩
        (operations.map (.advance calls.length)) =
      some ⟨put (cell.raise value spurious cell.value), calls ++ [done value]⟩ := by
  induction spurious with
  | zero =>
      rw [Atomic.raise]
      split
      next above => exact ⟨[.effect], exec_single (last_turn calls (exchanges cell value))⟩
      next reached => exact ⟨[], rfl⟩
  | succ n ih =>
      rw [Atomic.raise]
      split
      next above =>
        rw [if_pos above] at ih
        obtain ⟨operations, rest⟩ := ih
        refine ⟨.read 0 :: operations, exec_cons.mpr ⟨_, last_turn calls (fails cell value cell.value), ?_⟩⟩
        rw [if_pos above]
        exact rest
      next reached => exact ⟨[], rfl⟩

/-- `on_connect` in one thread while the others stand still is the call of the sequential model. -/
theorem onConnect_alone (s : Threads) (spurious : Nat) :
    ∃ operations : List Operation,
      exec Threads.step s (.onConnect :: operations.map (.advance s.calls.length)) =
        some ⟨s.monitor.onConnect spurious, s.calls ++ [.connected (int32 (s.monitor.connectionsTotal + 1))]⟩ := by
  let total := int32 (s.monitor.connectionsTotal + 1)
  let counted := { s.monitor with
    connectionsAlive := int32 (s.monitor.connectionsAlive + 1)
    connectionsTotal := total }
  obtain ⟨operations, rest⟩ := @raise_alone Int _ (fun cell => { counted with connectionsPeak := cell }) .raisingPeak
    .connected (fun cell value => if_pos rfl) (fun _ _ _ => rfl) s.calls s.monitor.connectionsPeak total spurious
  refine ⟨.effect :: .effect :: .read 0 :: operations, ?_⟩
  apply exec_cons.mpr ⟨_, rfl, ?_⟩
  apply exec_cons.mpr ⟨_, last_turn s.calls rfl, ?_⟩
  apply exec_cons.mpr ⟨_, last_turn s.calls rfl, ?_⟩
  exact exec_cons.mpr ⟨_, last_turn s.calls rfl, rest⟩

theorem refresh_alone (s : Threads) (rssKb spurious : Nat) :
    ∃ operations : List Operation,
      exec Threads.step s (.refresh (some rssKb) :: operations.map (.advance s.calls.length)) =
        some ⟨s.monitor.refresh (some rssKb) spurious, s.calls ++ [.refreshed rssKb]⟩ := by
  obtain ⟨operations, rest⟩ := @raise_alone Nat _
    (fun cell => { s.monitor with memoryRssKb := rssKb, memoryPeakRssKb := cell }) .raisingMemoryPeak
    .refreshed (fun cell value => if_pos rfl) (fun _ _ _ => rfl) s.calls s.monitor.memoryPeakRssKb rssKb spurious
  refine ⟨.effect :: .read 0 :: operations, ?_⟩
  apply exec_cons.mpr ⟨_, rfl, ?_⟩
  apply exec_cons.mpr ⟨_, last_turn s.calls rfl, ?_⟩
  exact exec_cons.mpr ⟨_, last_turn s.calls rfl, rest⟩

end Monitor

end ServerFramework.Core
