import Mathlib.Data.List.Nodup
import ServerFramework.Network.TcpServer

namespace ServerFramework.Tcp
open Protocol Library

/-! ## What a step can do -/

structure View where
  sessionId : Int
  onConnected : Bool
  life : Life

def Connection.view (c : Connection) : View := ⟨c.sessionId, c.onConnected, c.life⟩

namespace TcpServer

def views (s : TcpServer) : List View := s.made.map Connection.view

inductive Moves (close : Bool) : View → Life → List Callback → Prop
  | begin {v : View} (made : v.life = .made) : Moves close v .started (if v.onConnected then [.connected] else [])
  | read {v : View} {life : Life} (pkts : List Packet) (started : v.life = .started)
      (after : life = .started ∨ life = .left) : Moves close v life (pkts.map .message)
  | erase {v : View} (left : v.life = .left) : Moves close v .erased []
  | notify {v : View} (erased : v.life = .erased) : Moves close v .notified (if close then [.closed] else [])

inductive Effect (s t : TcpServer) : Prop
  | quiet (views : t.views = s.views) (handlers : t.handlers = s.handlers) (next : t.nextSessionId = s.nextSessionId)
      (connections : t.connections.Sublist s.connections) (log : t.log = s.log) : Effect s t
  | accept (views : t.views = s.views ++ [⟨s.nextSessionId, false, .made⟩]) (handlers : t.handlers = s.handlers)
      (next : t.nextSessionId = s.nextSessionId + 1)
      (connections : t.connections = erase s.nextSessionId s.connections ++ [(s.nextSessionId, s.views.length)])
      (log : t.log = s.log) : Effect s t
  | move {p : Nat} {v : View} {life : Life} {callbacks : List Callback} (here : s.views[p]? = some v)
      (moves : Moves s.handlers.close v life callbacks) (views : t.views = s.views.set p { v with life := life })
      (handlers : t.handlers = s.handlers) (next : t.nextSessionId = s.nextSessionId)
      (connections : t.connections = if life = .erased then erase v.sessionId s.connections else s.connections)
      (log : t.log = s.log ++ callbacks.map fun callback => (v.sessionId, callback)) : Effect s t

theorem modify_views {f : Connection → Connection} (same : ∀ c, (f c).view = c.view) (made : List Connection) (p : Nat) :
    (made.modify p f).map Connection.view = made.map Connection.view := by
  apply List.ext_getElem?
  intro i
  rw [List.getElem?_map, List.getElem?_map, List.getElem?_modify]
  cases made[i]? with
  | none => rfl
  | some c =>
      by_cases here : p = i
      · simp [here, same]
      · simp [here]

theorem forEach_views (s : TcpServer) (chosen : Int → Bool) {f : Connection → Connection}
    (same : ∀ c, (f c).view = c.view) : (s.forEach chosen f).views = s.views := by
  have folded (entries : List (Int × Nat)) (made : List Connection) :
      (entries.foldl (fun made entry => made.modify entry.2 f) made).map Connection.view =
        made.map Connection.view := by
    induction entries generalizing made with
    | nil => rfl
    | cons entry entries ih =>
        rw [List.foldl_cons]
        exact (ih _).trans (modify_views same made entry.2)
  exact folded _ s.made

theorem close_views (s : TcpServer) (chosen : Int → Bool) : (s.forEach chosen Connection.close).views = s.views :=
  forEach_views s chosen fun _ => rfl

theorem erase_sublist (sessionId : Int) (connections : List (Int × Nat)) :
    (erase sessionId connections).Sublist connections := List.filter_sublist

theorem update_views (s : TcpServer) (p : Nat) (c : Connection) : (s.update p c).views = s.views.set p c.view :=
  List.map_set

theorem views_of_made {s : TcpServer} {p : Nat} {c : Connection} (here : s.made[p]? = some c) :
    s.views[p]? = some c.view := by
  rw [views, List.getElem?_map, here]
  rfl

theorem set_same {s : TcpServer} {p : Nat} {c d : Connection} (here : s.made[p]? = some c) (same : d.view = c.view) :
    (s.update p d).views = s.views := by
  rw [update_views, same]
  obtain ⟨inside, at_p⟩ := List.getElem?_eq_some_iff.mp (views_of_made here)
  rw [← at_p]
  exact List.set_getElem_self inside

theorem withConnection_some {s t : TcpServer} {p : Nat} {stage : Life → Bool} {f : Connection → Option TcpServer}
    (stepped : s.withConnection p stage f = some t) :
    ∃ c, s.made[p]? = some c ∧ stage c.life = true ∧ f c = some t := by
  obtain ⟨c, here, rest⟩ := Option.bind_eq_some_iff.mp stepped
  split at rest
  · rename_i fits
    exact ⟨c, here, fits, rest⟩
  · cases rest

theorem read_effect {s : TcpServer} {p : Nat} {c : Connection} (here : s.made[p]? = some c) (started : c.life = .started)
    (reader : ReadSide Packet) : Effect s (s.read p c reader) := by
  have moved : (s.read p c reader).views = s.views.set p { c.view with life := (c.afterRead reader).life } :=
    update_views s p (c.afterRead reader)
  have after : (c.afterRead reader).life = .started ∨ (c.afterRead reader).life = .left := by
    simp only [Connection.afterRead]
    split
    · exact .inr rfl
    · exact .inl started
  have inside : ¬ (c.afterRead reader).life = .erased := by
    rcases after with life | life <;> simp [life]
  have connections : (s.read p c reader).connections =
      if (c.afterRead reader).life = .erased then erase c.sessionId s.connections else s.connections := by
    rw [if_neg inside]
    rfl
  cases listening : c.onMessage with
  | false =>
      refine .move (views_of_made here) (.read [] started after) moved rfl rfl connections ?_
      simp [read, call, update, listening, Connection.view]
  | true =>
      refine .move (views_of_made here) (.read (reader.delivered.drop c.reader.delivered.length) started after) moved
        rfl rfl connections ?_
      simp [read, call, update, listening, Connection.view]

theorem step_effect {s t : TcpServer} {action : Action} (stepped : s.step action = some t) : Effect s t := by
  cases action with
  | start =>
      obtain rfl := Option.some.inj stepped
      exact .quiet rfl rfl rfl (.refl _) rfl
  | accept =>
      simp only [step, accept, Option.ite_none_right_eq_some, Option.some.injEq] at stepped
      obtain ⟨-, rfl⟩ := stepped
      refine .accept ?_ rfl rfl ?_ rfl
      · simp [views, Connection.view]
      · simp [views]
  | begin p =>
      rw [step] at stepped
      obtain ⟨c, here, stage, rest⟩ := withConnection_some stepped
      obtain rfl := Option.some.inj rest
      refine .move (views_of_made here) (.begin (by simpa [Connection.view] using stage)) ?_ rfl rfl rfl rfl
      exact update_views s p { c with life := .started }
  | read p input action =>
      rw [step] at stepped
      obtain ⟨c, here, stage, rest⟩ := withConnection_some stepped
      obtain ⟨⟨reader, left⟩, -, rfl⟩ := Option.map_eq_some_iff.mp rest
      exact read_effect here (by simpa using stage) reader
  | write p action =>
      rw [step] at stepped
      obtain ⟨c, here, stage, rest⟩ := withConnection_some stepped
      obtain ⟨⟨writer, out⟩, -, rfl⟩ := Option.map_eq_some_iff.mp rest
      exact .quiet (set_same here rfl) rfl rfl (.refl _) rfl
  | erase p =>
      rw [step] at stepped
      obtain ⟨c, here, stage, rest⟩ := withConnection_some stepped
      obtain rfl := Option.some.inj rest
      refine .move (views_of_made here) (.erase (by simpa [Connection.view] using stage)) ?_ rfl rfl rfl ?_
      · exact update_views s p { c with life := .erased }
      · simp [eraseSession, update]
  | notify p =>
      rw [step] at stepped
      obtain ⟨c, here, stage, rest⟩ := withConnection_some stepped
      obtain rfl := Option.some.inj rest
      refine .move (views_of_made here) (.notify (by simpa [Connection.view] using stage)) ?_ rfl rfl rfl rfl
      exact update_views s p { c with life := .notified }
  | heartbeat idle =>
      obtain rfl := Option.some.inj stepped
      exact .quiet (close_views s _) rfl rfl (.refl _) rfl
  | closeSession sessionId =>
      obtain rfl := Option.some.inj stepped
      have same : (s.closeSession sessionId).views = s.views := close_views s fun other => other = sessionId
      exact .quiet same rfl rfl (erase_sublist _ _) rfl
  | stop =>
      obtain rfl := Option.some.inj stepped
      unfold stop
      split
      · exact .quiet (close_views s fun _ => true) rfl rfl (List.nil_sublist _) rfl
      · exact .quiet rfl rfl rfl (.refl _) rfl
  | sendTo sessionId pkt =>
      obtain rfl := Option.some.inj stepped
      unfold sendTo
      split
      · exact .quiet rfl rfl rfl (.refl _) rfl
      · split
        · exact .quiet rfl rfl rfl (.refl _) rfl
        · rename_i c here
          exact .quiet (set_same here rfl) rfl rfl (.refl _) rfl
  | broadcast pkt =>
      obtain rfl := Option.some.inj stepped
      exact .quiet (forEach_views s _ fun _ => rfl) rfl rfl (.refl _) rfl

/-! ## The registry -/

def callbacks (s : TcpServer) (sessionId : Int) : List Callback :=
  (s.log.filter fun entry => entry.1 = sessionId).map Prod.snd

def registered (life : Life) : Prop := life ≠ .erased ∧ life ≠ .notified

def Recorded (close : Bool) (life : Life) (calls : List Callback) : Prop :=
  ∃ pkts : List Packet, calls = pkts.map .message ++ if life = .notified ∧ close then [.closed] else []

structure Consistent (s : TcpServer) : Prop where
  next : s.nextSessionId = s.views.length + 1
  numbered : ∀ (p : Nat) v, s.views[p]? = some v → v.sessionId = p + 1
  unconnected : ∀ (p : Nat) v, s.views[p]? = some v → v.onConnected = false
  entries : ∀ entry ∈ s.connections, ∃ v, s.views[entry.2]? = some v ∧ v.sessionId = entry.1 ∧ registered v.life
  recorded : ∀ (p : Nat) v, s.views[p]? = some v → Recorded s.handlers.close v.life (s.callbacks v.sessionId)
  unknown : ∀ sessionId, sessionId < 1 ∨ s.nextSessionId ≤ sessionId → s.callbacks sessionId = []

theorem callbacks_append {s t : TcpServer} {sessionId : Int} {calls : List Callback}
    (log : t.log = s.log ++ calls.map fun callback => (sessionId, callback)) (other : Int) :
    t.callbacks other = s.callbacks other ++ if other = sessionId then calls else [] := by
  rw [callbacks, log, List.filter_append, List.map_append, callbacks]
  by_cases same : other = sessionId
  · subst same
    simp [List.filter_map, Function.comp_def]
  · have different : ¬ sessionId = other := fun back => same back.symm
    simp [List.filter_map, Function.comp_def, same, different]

theorem callbacks_of_log {s t : TcpServer} (log : t.log = s.log) : t.callbacks = s.callbacks := by
  funext sessionId
  rw [callbacks, callbacks, log]

theorem quiet_consistent {s t : TcpServer} (consistent : Consistent s) (views : t.views = s.views)
    (handlers : t.handlers = s.handlers) (next : t.nextSessionId = s.nextSessionId)
    (connections : t.connections.Sublist s.connections) (log : t.log = s.log) : Consistent t := by
  constructor
  · rw [next, views]
    exact consistent.next
  · rw [views]
    exact consistent.numbered
  · rw [views]
    exact consistent.unconnected
  · rw [views]
    exact fun entry member => consistent.entries entry (connections.subset member)
  · rw [views, handlers, callbacks_of_log log]
    exact consistent.recorded
  · rw [next, callbacks_of_log log]
    exact consistent.unknown

theorem getElem?_snoc {views : List View} {last v : View} {p : Nat} (found : (views ++ [last])[p]? = some v) :
    views[p]? = some v ∨ p = views.length ∧ v = last := by
  rw [List.getElem?_append] at found
  split at found
  · exact .inl found
  · rename_i beyond
    obtain ⟨only, same⟩ := List.getElem?_eq_some_iff.mp found
    rw [List.length_singleton] at only
    exact .inr ⟨by omega, by simpa using same.symm⟩

theorem Consistent.id_range {s : TcpServer} (consistent : Consistent s) {p : Nat} {v : View}
    (found : s.views[p]? = some v) : 1 ≤ v.sessionId ∧ v.sessionId < s.nextSessionId := by
  obtain ⟨inside, -⟩ := List.getElem?_eq_some_iff.mp found
  rw [consistent.numbered p v found, consistent.next]
  omega

theorem accept_consistent {s t : TcpServer} (consistent : Consistent s)
    (views : t.views = s.views ++ [⟨s.nextSessionId, false, .made⟩]) (handlers : t.handlers = s.handlers)
    (next : t.nextSessionId = s.nextSessionId + 1)
    (connections : t.connections = erase s.nextSessionId s.connections ++ [(s.nextSessionId, s.views.length)])
    (log : t.log = s.log) : Consistent t := by
  have fresh : s.callbacks s.nextSessionId = [] := consistent.unknown _ (.inr (Int.le_refl _))
  constructor
  · rw [next, consistent.next, views, List.length_append]
    simp
  · intro p v found
    rw [views] at found
    rcases getElem?_snoc found with old | ⟨rfl, rfl⟩
    · exact consistent.numbered p v old
    · exact consistent.next
  · intro p v found
    rw [views] at found
    rcases getElem?_snoc found with old | ⟨rfl, rfl⟩
    · exact consistent.unconnected p v old
    · rfl
  · intro entry member
    rw [connections] at member
    rcases List.mem_append.mp member with old | new
    · obtain ⟨v, found, id, stage⟩ := consistent.entries entry ((erase_sublist _ _).subset old)
      obtain ⟨inside, -⟩ := List.getElem?_eq_some_iff.mp found
      refine ⟨v, ?_, id, stage⟩
      rw [views, List.getElem?_append_left inside, found]
    · obtain rfl := List.mem_singleton.mp new
      exact ⟨⟨s.nextSessionId, false, .made⟩, by simp [views], rfl, by simp [registered]⟩
  · intro p v found
    rw [views] at found
    rw [handlers, callbacks_of_log log]
    rcases getElem?_snoc found with old | ⟨rfl, rfl⟩
    · exact consistent.recorded p v old
    · exact ⟨[], by simp [fresh]⟩
  · intro sessionId outside
    rw [callbacks_of_log log]
    apply consistent.unknown
    omega

theorem getElem?_moved {views : List View} {v w : View} {p i : Nat} (found : (views.set p v)[i]? = some w) :
    i = p ∧ w = v ∨ i ≠ p ∧ views[i]? = some w := by
  rw [List.getElem?_set] at found
  by_cases here : p = i
  · subst here
    rw [if_pos rfl] at found
    split at found
    · exact .inl ⟨rfl, (Option.some.inj found).symm⟩
    · cases found
  · rw [if_neg here] at found
    exact .inr ⟨fun back => here back.symm, found⟩

theorem Moves.recorded {close : Bool} {v : View} {life : Life} {calls new : List Callback}
    (moves : Moves close v life new) (unconnected : v.onConnected = false) (before : Recorded close v.life calls) :
    Recorded close life (calls ++ new) := by
  obtain ⟨pkts, rfl⟩ := before
  cases moves with
  | begin made => exact ⟨pkts, by simp [made, unconnected]⟩
  | read more started after =>
      refine ⟨pkts ++ more, ?_⟩
      rcases after with rfl | rfl <;> simp [started]
  | erase left => exact ⟨pkts, by simp [left]⟩
  | notify erased => exact ⟨pkts, by simp [erased]⟩

theorem Moves.registered {close : Bool} {v : View} {life : Life} {new : List Callback}
    (moves : Moves close v life new) (before : registered v.life) : registered life ∨ life = .erased := by
  cases moves with
  | begin made => exact .inl (by simp [TcpServer.registered])
  | read more started after =>
      refine .inl ?_
      rcases after with rfl | rfl <;> simp [TcpServer.registered]
  | erase left => exact .inr rfl
  | notify erased => exact absurd erased before.1

theorem move_consistent {s t : TcpServer} {p : Nat} {v : View} {life : Life} {new : List Callback}
    (consistent : Consistent s) (here : s.views[p]? = some v) (moves : Moves s.handlers.close v life new)
    (views : t.views = s.views.set p { v with life := life }) (handlers : t.handlers = s.handlers)
    (next : t.nextSessionId = s.nextSessionId)
    (connections : t.connections = if life = .erased then erase v.sessionId s.connections else s.connections)
    (log : t.log = s.log ++ new.map fun callback => (v.sessionId, callback)) : Consistent t := by
  have number := consistent.numbered p v here
  constructor
  · rw [next, consistent.next, views, List.length_set]
  · intro i w found
    rw [views] at found
    rcases getElem?_moved found with ⟨rfl, rfl⟩ | ⟨-, old⟩
    · exact number
    · exact consistent.numbered i w old
  · intro i w found
    rw [views] at found
    rcases getElem?_moved found with ⟨rfl, rfl⟩ | ⟨-, old⟩
    · exact consistent.unconnected i v here
    · exact consistent.unconnected i w old
  · intro entry member
    have old : entry ∈ s.connections := by
      rw [connections] at member
      split at member
      · exact (erase_sublist _ _).subset member
      · exact member
    obtain ⟨w, found, id, stage⟩ := consistent.entries entry old
    by_cases same : entry.2 = p
    · rw [same, here] at found
      obtain rfl := Option.some.inj found
      obtain ⟨inside, -⟩ := List.getElem?_eq_some_iff.mp here
      refine ⟨{ v with life := life }, by rw [views, same, List.getElem?_set_self inside], id, ?_⟩
      rcases moves.registered stage with stays | gone
      · exact stays
      · rw [connections, if_pos gone, erase, List.mem_filter] at member
        simp [id] at member
    · refine ⟨w, ?_, id, stage⟩
      rw [views, List.getElem?_set_ne (fun back => same back.symm), found]
  · intro i w found
    rw [views] at found
    rw [handlers, callbacks_append log]
    rcases getElem?_moved found with ⟨rfl, rfl⟩ | ⟨apart, old⟩
    · rw [if_pos rfl]
      exact moves.recorded (consistent.unconnected i v here) (consistent.recorded i v here)
    · have different : w.sessionId ≠ v.sessionId := by
        rw [consistent.numbered i w old, number]
        omega
      rw [if_neg different, List.append_nil]
      exact consistent.recorded i w old
  · intro sessionId outside
    have range := consistent.id_range here
    have other : sessionId ≠ v.sessionId := by
      rw [next] at outside
      omega
    rw [callbacks_append log, if_neg other, List.append_nil]
    exact consistent.unknown sessionId (by rwa [next] at outside)

theorem step_consistent {s t : TcpServer} {action : Action} (stepped : s.step action = some t)
    (consistent : Consistent s) : Consistent t := by
  cases step_effect stepped with
  | quiet views handlers next connections log => exact quiet_consistent consistent views handlers next connections log
  | accept views handlers next connections log => exact accept_consistent consistent views handlers next connections log
  | move here moves views handlers next connections log =>
      exact move_consistent consistent here moves views handlers next connections log

theorem initial_consistent (handlers : Handlers) : Consistent { handlers } := by
  constructor <;> simp [views, callbacks]

theorem exec_consistent {handlers : Handlers} {actions : List Action} {s : TcpServer}
    (run : exec step { handlers } actions = some s) : Consistent s :=
  exec_invariant (fun _ _ _ stepped consistent => step_consistent stepped consistent) run (initial_consistent handlers)

theorem exec_log {actions : List Action} {s t : TcpServer} (run : exec step s actions = some t) : s.log <+: t.log := by
  refine exec_invariant (P := fun u => s.log <+: u.log) ?_ run (List.prefix_refl _)
  intro u action w stepped before
  cases step_effect stepped with
  | quiet _ _ _ _ log => rwa [log]
  | accept _ _ _ _ log => rwa [log]
  | move _ _ _ _ _ _ log =>
      rw [log]
      exact before.trans (List.prefix_append _ _)

theorem callbacks_grow {s t : TcpServer} (grown : s.log <+: t.log) {sessionId : Int} {callback : Callback}
    (called : callback ∈ s.callbacks sessionId) : callback ∈ t.callbacks sessionId := by
  obtain ⟨more, log⟩ := grown
  rw [callbacks, ← log, List.filter_append, List.map_append]
  exact List.mem_append_left _ called

theorem Consistent.known {s : TcpServer} (consistent : Consistent s) {sessionId : Int}
    (called : s.callbacks sessionId ≠ []) : ∃ (p : Nat) (v : View), s.views[p]? = some v ∧ v.sessionId = sessionId := by
  have range : ¬ (sessionId < 1 ∨ s.nextSessionId ≤ sessionId) := fun outside =>
    called (consistent.unknown sessionId outside)
  have next := consistent.next
  have inside : (sessionId - 1).toNat < s.views.length := by omega
  refine ⟨(sessionId - 1).toNat, s.views[(sessionId - 1).toNat], List.getElem?_eq_getElem inside, ?_⟩
  rw [consistent.numbered _ _ (List.getElem?_eq_getElem inside)]
  omega

theorem Consistent.ids_nodup {s : TcpServer} (consistent : Consistent s) :
    (s.made.map Connection.sessionId).Nodup := by
  have ids : s.made.map Connection.sessionId = (List.range s.made.length).map fun p : Nat => (p : Int) + 1 := by
    apply List.ext_getElem?
    intro p
    rw [List.getElem?_map, List.getElem?_map]
    cases found : s.made[p]? with
    | none =>
        have beyond := List.getElem?_eq_none_iff.mp found
        simp [beyond]
    | some c =>
        obtain ⟨inside, -⟩ := List.getElem?_eq_some_iff.mp found
        have number : c.sessionId = p + 1 := consistent.numbered p c.view (views_of_made found)
        simp [inside, number]
  rw [ids]
  apply List.Nodup.map
  · intro a b same
    exact Int.ofNat_inj.mp ((Int.add_left_inj 1).mp same)
  · exact List.nodup_range

theorem Consistent.notified {s : TcpServer} (consistent : Consistent s) {sessionId : Int}
    (called : .closed ∈ s.callbacks sessionId) :
    ∃ (p : Nat) (v : View), s.views[p]? = some v ∧ v.sessionId = sessionId ∧ v.life = .notified := by
  obtain ⟨p, v, found, rfl⟩ := consistent.known (List.ne_nil_of_mem called)
  obtain ⟨pkts, calls⟩ := consistent.recorded p v found
  rw [calls] at called
  refine ⟨p, v, found, rfl, ?_⟩
  by_cases notified : v.life = .notified
  · exact notified
  · simp [notified] at called

theorem Consistent.lookup_closed {s : TcpServer} (consistent : Consistent s) {sessionId : Int}
    (called : .closed ∈ s.callbacks sessionId) : s.connections.lookup sessionId = none := by
  obtain ⟨p, v, found, rfl, notified⟩ := consistent.notified called
  cases entry : s.connections.lookup v.sessionId with
  | none => rfl
  | some q =>
      obtain ⟨front, behind, split, -⟩ := List.lookup_eq_some_iff.mp entry
      obtain ⟨w, there, id, stage⟩ := consistent.entries (v.sessionId, q) (by simp [split])
      have same : q = p := by
        have first := consistent.numbered q w there
        have second := consistent.numbered p v found
        dsimp only at id
        omega
      rw [same, found] at there
      obtain rfl := Option.some.inj there
      exact absurd notified stage.2

theorem Consistent.close_once {s : TcpServer} (consistent : Consistent s) (sessionId : Int) :
    (s.callbacks sessionId).count .closed ≤ 1 := by
  by_cases called : s.callbacks sessionId = []
  · simp [called]
  · obtain ⟨p, v, found, rfl⟩ := consistent.known called
    obtain ⟨pkts, calls⟩ := consistent.recorded p v found
    have messages : (pkts.map Callback.message).count .closed = 0 := by
      simp [List.count_eq_zero]
    rw [calls, List.count_append, messages]
    split <;> simp

theorem session_registry_consistent {handlers : Handlers} {actions later : List Action} {s t : TcpServer}
    (run : exec step { handlers } actions = some s) (after : exec step s later = some t) :
    (s.made.map Connection.sessionId).Nodup ∧
    (∀ sessionId p, (sessionId, p) ∈ s.connections →
      sessionId < s.nextSessionId ∧ ∃ c, s.made[p]? = some c ∧ c.sessionId = sessionId) ∧
    (∀ sessionId, (s.callbacks sessionId).count .closed ≤ 1) ∧
    ∀ sessionId, .closed ∈ s.callbacks sessionId →
      t.connections.lookup sessionId = none ∧ ∀ pkt, (t.sendTo sessionId pkt).1 = false := by
  have consistent := exec_consistent run
  refine ⟨consistent.ids_nodup, ?_, consistent.close_once, ?_⟩
  · intro sessionId p member
    obtain ⟨v, found, id, -⟩ := consistent.entries _ member
    have range := consistent.id_range found
    rw [id] at range
    rw [views, List.getElem?_map] at found
    obtain ⟨c, here, rfl⟩ := Option.map_eq_some_iff.mp found
    exact ⟨range.2, c, here, id⟩
  · intro sessionId called
    have whole : exec step { handlers } (actions ++ later) = some t := by
      rw [exec_append, run]
      exact after
    have gone := (exec_consistent whole).lookup_closed (callbacks_grow (exec_log after) called)
    refine ⟨gone, fun pkt => ?_⟩
    rw [sendTo, gone]

def oneSession : List Action :=
  [.start, .accept, .begin 0, .read 0 [] .run, .read 0 [0, 0, 0, 7, 0, 7, 9] (.recv (.chunk 7)), .read 0 [] .run,
    .read 0 [] .run, .read 0 [] .run, .read 0 [] (.recv .eof), .erase 0, .notify 0]

def afterOneSession (connected : Bool) : TcpServer where
  handlers := ⟨connected, true, true⟩
  running := true
  launched := true
  nextSessionId := 2
  made := [{
    sessionId := 1
    onMessage := true
    life := .notified
    reader := { alive := false, phase := .finished, delivered := [⟨7, [9]⟩] }
    writer := { alive := false } }]
  log := [(1, .message ⟨7, [9]⟩), (1, .closed)]

theorem oneSession_runs (connected : Bool) :
    exec step { handlers := ⟨connected, true, true⟩ } oneSession = some (afterOneSession connected) := by
  cases connected <;> decide +kernel

theorem session_registry_after_close :
    exec step { handlers := ⟨false, true, true⟩ } oneSession = some (afterOneSession false) ∧
      .closed ∈ (afterOneSession false).callbacks 1 ∧ ((afterOneSession false).sendTo 1 ⟨5, []⟩).1 = false := by
  have called : .closed ∈ (afterOneSession false).callbacks 1 := by decide +kernel
  have stays : exec step (afterOneSession false) [] = some (afterOneSession false) := rfl
  have registry := session_registry_consistent (oneSession_runs false) stays
  exact ⟨oneSession_runs false, called, (registry.2.2.2 1 called).2 ⟨5, []⟩⟩

/-! ## The order of the callbacks -/

/-- A prefix of the connected handler (if there is one), then messages, then the close handler. -/
def Lawful (handlers : Handlers) (calls : List Callback) : Prop :=
  ∃ pkts : List Packet, calls <+:
    (if handlers.connected then [.connected] else []) ++ (pkts.map .message ++ [.closed])

theorem Recorded.lawful_iff {close : Bool} {life : Life} {calls : List Callback}
    (recorded : Recorded close life calls) (handlers : Handlers) :
    Lawful handlers calls ↔ handlers.connected = false ∨ calls = [] := by
  obtain ⟨pkts, rfl⟩ := recorded
  cases set : handlers.connected with
  | false =>
      refine ⟨fun _ => .inl rfl, fun _ => ⟨pkts, ?_⟩⟩
      rw [set]
      split
      · exact List.prefix_refl _
      · exact (List.prefix_append_right_inj _).mpr List.nil_prefix
  | true =>
      constructor
      · rintro ⟨all, before⟩
        rw [set] at before
        cases pkts with
        | cons pkt pkts => simp at before
        | nil =>
            right
            split
            · rename_i notified
              simp [notified] at before
            · rfl
      · rintro (unset | none)
        · cases unset
        · exact ⟨[], by rw [none]; exact List.nil_prefix⟩

theorem callbacks_lawful_iff {handlers : Handlers} {actions : List Action} {s : TcpServer}
    (run : exec step { handlers } actions = some s) (sessionId : Int) :
    Lawful handlers (s.callbacks sessionId) ↔ handlers.connected = false ∨ s.callbacks sessionId = [] := by
  have consistent := exec_consistent run
  by_cases called : s.callbacks sessionId = []
  · refine ⟨fun _ => .inr called, fun _ => ⟨[], ?_⟩⟩
    rw [called]
    exact List.nil_prefix
  · obtain ⟨p, v, found, rfl⟩ := consistent.known called
    exact (consistent.recorded p v found).lawful_iff handlers

theorem callbacks_lawful_unset :
    exec step { handlers := ⟨false, true, true⟩ } oneSession = some (afterOneSession false) ∧
      Lawful ⟨false, true, true⟩ ((afterOneSession false).callbacks 1) :=
  ⟨oneSession_runs false, (callbacks_lawful_iff (oneSession_runs false) 1).mpr (.inl rfl)⟩

theorem connected_handler_never_called :
    exec step { handlers := ⟨true, true, true⟩ } oneSession = some (afterOneSession true) ∧
      (afterOneSession true).callbacks 1 = [.message ⟨7, [9]⟩, .closed] ∧
      ¬ Lawful ⟨true, true, true⟩ ((afterOneSession true).callbacks 1) := by
  have calls : (afterOneSession true).callbacks 1 = [.message ⟨7, [9]⟩, .closed] := by decide +kernel
  refine ⟨oneSession_runs true, calls, ?_⟩
  rw [calls]
  rintro ⟨pkts, before⟩
  simp at before

end TcpServer

end ServerFramework.Tcp
