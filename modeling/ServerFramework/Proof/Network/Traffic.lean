import Mathlib.Logic.Function.Iterate
import ServerFramework.Network.Traffic
import ServerFramework.Proof.Network.Loops
import ServerFramework.Proof.Network.TcpServer

namespace ServerFramework.Tcp
open Protocol Library

/-! ## One connection under a step of the server -/

namespace TcpServer

def pointers (s : TcpServer) : List Nat := s.connections.map Prod.snd

inductive Touch (s : TcpServer) (p : Nat) (c : Connection) : Action → Connection → Prop
  | rest {action : Action} {d : Connection} (alive : Bool) (writer : d.writer = { c.writer with alive })
      (silent : s.written p action = [])
      (others : p ∈ s.pointers → action.sends.filterMap (addressed c.sessionId) = []) : Touch s p c action d
  | push {action : Action} {pkt : Packet} (registered : p ∈ s.pointers)
      (sends : action.sends.filterMap (addressed c.sessionId) = [encode pkt]) (silent : s.written p action = []) :
      Touch s p c action (c.sendPacket pkt).2
  | write {action : WriteAction} {writer : WriteSide} {out : List UInt8}
      (moved : TcpConnection.writeLoop c.writer action = some (writer, out)) :
      Touch s p c (.write p action) { c with writer }

theorem foldl_modify (f : Connection → Connection) (entries : List (Int × Nat)) (made : List Connection) (p : Nat) :
    (entries.foldl (fun made entry => made.modify entry.2 f) made)[p]? =
      made[p]?.map f^[(entries.map Prod.snd).count p] := by
  induction entries generalizing made with
  | nil => simp
  | cons entry entries ih =>
      rw [List.foldl_cons, ih, List.getElem?_modify, List.map_cons, List.count_cons, Function.iterate_add]
      by_cases here : entry.2 = p
      · cases made[p]? <;> simp [here]
      · cases made[p]? <;> simp [here]

theorem close_touch {s : TcpServer} {action : Action} {p : Nat} {c : Connection} (chosen : Int → Bool)
    (here : s.made[p]? = some c) (silent : s.written p action = []) (sends : action.sends = []) :
    ∃ d, (s.forEach chosen Connection.close).made[p]? = some d ∧ d.sessionId = c.sessionId ∧ Touch s p c action d := by
  rw [forEach, foldl_modify, here]
  generalize (((s.connections.filter fun entry => chosen entry.1).map Prod.snd).count p) = n
  have closed : ∃ alive, ((Connection.close^[n]) c).writer = { c.writer with alive } ∧
      ((Connection.close^[n]) c).sessionId = c.sessionId := by
    induction n with
    | zero => exact ⟨c.writer.alive, rfl, rfl⟩
    | succ n ih =>
        obtain ⟨alive, writer, same⟩ := ih
        rw [Function.iterate_succ_apply']
        exact ⟨false, by simp [Connection.close, writer], same⟩
  obtain ⟨alive, writer, same⟩ := closed
  exact ⟨_, rfl, same, .rest alive writer silent fun _ => by simp [sends]⟩

/-! ## The registry -/

structure Registry (s : TcpServer) : Prop where
  consistent : Consistent s
  distinct : s.pointers.Nodup

theorem Registry.entry {s : TcpServer} (registry : Registry s) {entry : Int × Nat} (member : entry ∈ s.connections) :
    entry.1 = entry.2 + 1 ∧ entry.2 < s.made.length := by
  obtain ⟨v, here, same, -⟩ := registry.consistent.entries entry member
  refine ⟨same ▸ registry.consistent.numbered _ v here, ?_⟩
  obtain ⟨inside, -⟩ := List.getElem?_eq_some_iff.mp here
  simpa [views] using inside

theorem Registry.pointer {s : TcpServer} (registry : Registry s) {p : Nat} :
    p ∈ s.pointers ↔ ((p : Int) + 1, p) ∈ s.connections := by
  constructor
  · intro member
    obtain ⟨entry, among, rfl⟩ := List.mem_map.mp member
    rw [← (registry.entry among).1]
    exact among
  · exact fun member => List.mem_map.mpr ⟨_, member, rfl⟩

theorem Registry.sessionId {s : TcpServer} (registry : Registry s) {p : Nat} {c : Connection}
    (here : s.made[p]? = some c) : c.sessionId = p + 1 :=
  registry.consistent.numbered p c.view (views_of_made here)

theorem lookup_mem {connections : List (Int × Nat)} {sessionId : Int} {p : Nat}
    (found : connections.lookup sessionId = some p) : (sessionId, p) ∈ connections := by
  induction connections with
  | nil => cases found
  | cons entry rest ih =>
      rw [List.lookup_cons] at found
      split at found
      · rename_i same
        obtain rfl := Option.some.inj found
        rw [eq_of_beq same]
        exact .head rest
      · exact .tail entry (ih found)

theorem Registry.lookup {s : TcpServer} (registry : Registry s) {sessionId : Int} {p : Nat} :
    s.connections.lookup sessionId = some p ↔ p ∈ s.pointers ∧ sessionId = p + 1 := by
  constructor
  · intro found
    have member := lookup_mem found
    exact ⟨List.mem_map.mpr ⟨_, member, rfl⟩, (registry.entry member).1⟩
  · rintro ⟨member, rfl⟩
    have among := registry.pointer.mp member
    cases found : s.connections.lookup ((p : Int) + 1) with
    | none =>
        rw [List.lookup_eq_none_iff] at found
        simpa using found _ among
    | some q =>
        have same := (registry.entry (lookup_mem found)).1
        simp only [Option.some.injEq]
        omega

theorem initial_registry (handlers : Handlers) : Registry { handlers } :=
  ⟨initial_consistent handlers, List.nodup_nil⟩

theorem step_registry {s t : TcpServer} {action : Action} (stepped : s.step action = some t) (registry : Registry s) :
    Registry t := by
  refine ⟨step_consistent stepped registry.consistent, ?_⟩
  have fewer {connections : List (Int × Nat)} (among : connections.Sublist s.connections) :
      (connections.map Prod.snd).Nodup := (among.map Prod.snd).nodup registry.distinct
  rw [pointers]
  cases step_effect stepped with
  | quiet _ _ _ connections _ => exact fewer connections
  | accept views _ _ connections _ =>
      rw [connections, List.map_append, List.nodup_append]
      refine ⟨fewer (erase_sublist _ _), List.nodup_singleton _, ?_⟩
      rintro p old q new rfl
      obtain ⟨entry, member, rfl⟩ := List.mem_map.mp old
      have known := (registry.entry ((erase_sublist _ _).subset member)).2
      rw [List.map_singleton, List.mem_singleton, TcpServer.views, List.length_map] at new
      omega
  | move _ _ _ _ _ connections _ =>
      rw [connections]
      split
      · exact fewer (erase_sublist _ _)
      · exact fewer (.refl _)

/-! ## Every step -/

theorem update_made {s : TcpServer} {p q : Nat} {c d other : Connection} (here : s.made[p]? = some c)
    (there : s.made[q]? = some other) : (s.update q d).made[p]? = some (if q = p then d else c) := by
  rw [update, List.getElem?_set]
  by_cases same : q = p
  · subst same
    have inside := (List.getElem?_eq_some_iff.mp there).1
    simp [inside]
  · simp [same, here]

theorem same_touch {s : TcpServer} {action : Action} {p q : Nat} {c d other : Connection}
    (here : s.made[p]? = some c) (there : s.made[q]? = some other) (alive : Bool) (id : d.sessionId = other.sessionId)
    (writer : d.writer = { other.writer with alive }) (silent : s.written p action = []) (sends : action.sends = []) :
    ∃ e, (s.update q d).made[p]? = some e ∧ e.sessionId = c.sessionId ∧ Touch s p c action e := by
  rw [update_made here there]
  by_cases same : q = p
  · subst same
    obtain rfl := Option.some.inj (here.symm.trans there)
    exact ⟨d, by simp, id, .rest alive writer silent fun _ => by simp [sends]⟩
  · exact ⟨c, by simp [same], rfl, .rest c.writer.alive rfl silent fun _ => by simp [sends]⟩

theorem sendTo_touch {s : TcpServer} (registry : Registry s) {sessionId : Int} {pkt : Packet} {p : Nat} {c : Connection}
    (here : s.made[p]? = some c) :
    ∃ d, (s.sendTo sessionId pkt).2.made[p]? = some d ∧ d.sessionId = c.sessionId ∧
      Touch s p c (.sendTo sessionId pkt) d := by
  have known := registry.sessionId here
  have other (elsewhere : s.connections.lookup sessionId ≠ some p) : Touch s p c (.sendTo sessionId pkt) c := by
    refine .rest c.writer.alive rfl rfl fun member => ?_
    have different : sessionId ≠ p + 1 := fun same => elsewhere (registry.lookup.mpr ⟨member, same⟩)
    simp [Action.sends, addressed, known, different]
  rw [sendTo]
  split
  · rename_i missing
    exact ⟨c, here, rfl, other (by simp [missing])⟩
  · rename_i q found
    split
    · rename_i missing
      refine ⟨c, here, rfl, other ?_⟩
      rintro same
      rw [found] at same
      obtain rfl := Option.some.inj same
      rw [here] at missing
      cases missing
    · rename_i c' there
      rw [update_made here there]
      by_cases same : q = p
      · subst same
        obtain rfl := Option.some.inj (here.symm.trans there)
        obtain ⟨member, equal⟩ := registry.lookup.mp found
        rw [if_pos rfl]
        exact ⟨_, rfl, rfl, .push member (by simp [Action.sends, addressed, known, equal]) rfl⟩
      · refine ⟨c, by simp [same], rfl, other ?_⟩
        rw [found]
        exact fun equal => same (Option.some.inj equal)

theorem broadcast_touch {s : TcpServer} (registry : Registry s) {pkt : Packet} {p : Nat} {c : Connection}
    (here : s.made[p]? = some c) :
    ∃ d, (s.broadcast pkt).made[p]? = some d ∧ d.sessionId = c.sessionId ∧ Touch s p c (.broadcast pkt) d := by
  rw [broadcast, forEach, foldl_modify, here, List.filter_true, ← pointers]
  by_cases member : p ∈ s.pointers
  · rw [List.count_eq_one_of_mem registry.distinct member]
    exact ⟨_, rfl, rfl, .push member (by simp [Action.sends, addressed]) rfl⟩
  · rw [List.count_eq_zero_of_not_mem member]
    exact ⟨c, rfl, rfl, .rest c.writer.alive rfl rfl fun among => absurd among member⟩

theorem step_touch {s t : TcpServer} {action : Action} (stepped : s.step action = some t) (registry : Registry s)
    {p : Nat} {c : Connection} (here : s.made[p]? = some c) :
    ∃ d, t.made[p]? = some d ∧ d.sessionId = c.sessionId ∧ Touch s p c action d := by
  have still {made : List Connection} (same : made[p]? = some c) (silent : s.written p action = [])
      (sends : action.sends = []) : ∃ d, made[p]? = some d ∧ d.sessionId = c.sessionId ∧ Touch s p c action d :=
    ⟨c, same, rfl, .rest c.writer.alive rfl silent fun _ => by simp [sends]⟩
  cases action with
  | start =>
      obtain rfl := Option.some.inj stepped
      exact still here rfl rfl
  | accept =>
      simp only [step, accept, Option.ite_none_right_eq_some, Option.some.injEq] at stepped
      obtain ⟨-, rfl⟩ := stepped
      have inside := (List.getElem?_eq_some_iff.mp here).1
      exact still (by rw [List.getElem?_append_left inside, here]) rfl rfl
  | begin q =>
      rw [step] at stepped
      obtain ⟨other, there, -, rest⟩ := withConnection_some stepped
      obtain rfl := Option.some.inj rest
      exact same_touch here there other.writer.alive rfl rfl rfl rfl
  | read q input action =>
      rw [step] at stepped
      obtain ⟨other, there, -, rest⟩ := withConnection_some stepped
      obtain ⟨⟨reader, left⟩, -, rfl⟩ := Option.map_eq_some_iff.mp rest
      exact same_touch here there reader.alive rfl rfl rfl rfl
  | write q action =>
      rw [step] at stepped
      obtain ⟨other, there, -, rest⟩ := withConnection_some stepped
      obtain ⟨⟨writer, out⟩, moved, rfl⟩ := Option.map_eq_some_iff.mp rest
      by_cases same : q = p
      · subst same
        obtain rfl := Option.some.inj (here.symm.trans there)
        exact ⟨_, (update_made here there).trans (congrArg some (if_pos rfl)), rfl, .write moved⟩
      · refine ⟨c, (update_made here there).trans (congrArg some (if_neg same)), rfl, ?_⟩
        exact .rest c.writer.alive rfl (by simp [written, same]) fun _ => rfl
  | erase q =>
      rw [step] at stepped
      obtain ⟨other, there, -, rest⟩ := withConnection_some stepped
      obtain rfl := Option.some.inj rest
      exact same_touch here there other.writer.alive rfl rfl rfl rfl
  | notify q =>
      rw [step] at stepped
      obtain ⟨other, there, -, rest⟩ := withConnection_some stepped
      obtain rfl := Option.some.inj rest
      exact same_touch here there other.writer.alive rfl rfl rfl rfl
  | heartbeat idle =>
      obtain rfl := Option.some.inj stepped
      exact close_touch _ here rfl rfl
  | closeSession sessionId =>
      obtain rfl := Option.some.inj stepped
      exact close_touch (fun other => other = sessionId) here rfl rfl
  | stop =>
      obtain rfl := Option.some.inj stepped
      rw [stop]
      split
      · exact close_touch (fun _ => true) here rfl rfl
      · exact still here rfl rfl
  | sendTo sessionId pkt =>
      obtain rfl := Option.some.inj stepped
      exact sendTo_touch registry here
  | broadcast pkt =>
      obtain rfl := Option.some.inj stepped
      exact broadcast_touch registry here

theorem forEach_length (s : TcpServer) (chosen : Int → Bool) (f : Connection → Connection) :
    (s.forEach chosen f).made.length = s.made.length := by
  have folded (entries : List (Int × Nat)) (made : List Connection) :
      (entries.foldl (fun made entry => made.modify entry.2 f) made).length = made.length := by
    induction entries generalizing made with
    | nil => rfl
    | cons entry entries ih => rw [List.foldl_cons, ih, List.length_modify]
  exact folded _ s.made

theorem step_length {s t : TcpServer} {action : Action} (stepped : s.step action = some t) (other : action ≠ .accept) :
    t.made.length = s.made.length := by
  cases action with
  | accept => exact absurd rfl other
  | start =>
      obtain rfl := Option.some.inj stepped
      rfl
  | begin q | erase q | notify q =>
      rw [step] at stepped
      obtain ⟨c, -, -, rest⟩ := withConnection_some stepped
      obtain rfl := Option.some.inj rest
      exact List.length_set
  | read q input action | write q action =>
      rw [step] at stepped
      obtain ⟨c, -, -, rest⟩ := withConnection_some stepped
      obtain ⟨-, -, rfl⟩ := Option.map_eq_some_iff.mp rest
      exact List.length_set
  | heartbeat idle | broadcast pkt =>
      obtain rfl := Option.some.inj stepped
      exact forEach_length s _ _
  | closeSession sessionId =>
      obtain rfl := Option.some.inj stepped
      exact forEach_length s (fun other => other = sessionId) _
  | stop =>
      obtain rfl := Option.some.inj stepped
      rw [stop]
      split
      · exact forEach_length s (fun _ => true) _
      · rfl
  | sendTo sessionId pkt =>
      obtain rfl := Option.some.inj stepped
      rw [sendTo]
      split
      · rfl
      · split
        · rfl
        · exact List.length_set

theorem step_pointers {s t : TcpServer} {action : Action} (stepped : s.step action = some t) {p : Nat}
    (known : p < s.made.length) (member : p ∈ t.pointers) : p ∈ s.pointers := by
  have fewer {connections : List (Int × Nat)} (among : connections.Sublist s.connections)
      (member : p ∈ connections.map Prod.snd) : p ∈ s.pointers := (among.map Prod.snd).subset member
  rw [pointers] at member
  cases step_effect stepped with
  | quiet _ _ _ connections _ => exact fewer connections member
  | accept _ _ _ connections _ =>
      rw [connections, List.map_append, List.mem_append] at member
      rcases member with old | new
      · exact fewer (erase_sublist _ _) old
      · rw [List.map_singleton, List.mem_singleton, TcpServer.views, List.length_map] at new
        omega
  | move _ _ _ _ _ connections _ =>
      rw [connections] at member
      split at member
      · exact fewer (erase_sublist _ _) member
      · exact fewer (.refl _) member

/-! ## Frames and bytes -/

end TcpServer

/-- What was pushed is what is out and what is still to come, until a `::send` fails for good. -/
structure Piped (w : WriteSide) (frames : List (List UInt8)) (out : List UInt8) : Prop where
  failed : w.sendFailed = true → w.phase = .finished
  kept : w.sendFailed = false → out ++ w.unsent = frames.flatten
  front : out <+: frames.flatten

theorem initial_piped : Piped {} [] [] where
  failed := by simp
  kept _ := rfl
  front := List.prefix_rfl

theorem Piped.alive {w : WriteSide} {frames : List (List UInt8)} {out : List UInt8} (piped : Piped w frames out)
    (alive : Bool) : Piped { w with alive } frames out :=
  ⟨piped.failed, piped.kept, piped.front⟩

theorem Piped.push {w : WriteSide} {frames : List (List UInt8)} {out : List UInt8} (piped : Piped w frames out)
    (pkt : Packet) : Piped (w.push pkt) (frames ++ [encode pkt]) out where
  failed := piped.failed
  kept clean := by
    rw [List.flatten_append, ← piped.kept clean]
    simp [WriteSide.push, WriteSide.unsent, WriteSide.current]
  front := by
    rw [List.flatten_append]
    exact piped.front.trans (List.prefix_append _ _)

theorem writeLoop_writer {w w' : WriteSide} {action : WriteAction} {out : List UInt8}
    (moved : TcpConnection.writeLoop w action = some (w', out)) :
    (w'.sendFailed = w.sendFailed ∨ w'.phase = .finished) ∧ w'.writeQueue.length ≤ w.writeQueue.length := by
  unfold TcpConnection.writeLoop at moved
  split at moved
  · split at moved
    · cases moved
      exact ⟨.inl rfl, Nat.le_refl _⟩
    · cases moved
      unfold WriteSide.take
      split
      · exact ⟨.inl rfl, Nat.le_refl _⟩
      · rename_i queue
        exact ⟨.inl rfl, by simp [queue]⟩
    · split at moved
      · cases moved
        exact ⟨.inl rfl, Nat.le_refl _⟩
      · split at moved
        · cases moved
          exact ⟨.inl rfl, Nat.le_refl _⟩
        · cases moved
          exact ⟨.inr rfl, Nat.le_refl _⟩
    · cases moved
  · split at moved
    · split at moved
      · split at moved <;> cases moved
        exact ⟨.inl rfl, Nat.le_refl _⟩
      · cases moved
        exact ⟨.inl rfl, Nat.le_refl _⟩
      · cases moved
        exact ⟨.inr rfl, Nat.le_refl _⟩
    · cases moved

theorem writeLoop_finished {w : WriteSide} {action : WriteAction} (finished : w.phase = .finished) :
    TcpConnection.writeLoop w action = none := by
  cases action <;> simp [TcpConnection.writeLoop, finished]

theorem Piped.write {w w' : WriteSide} {frames : List (List UInt8)} {out bytes : List UInt8} {action : WriteAction}
    (piped : Piped w frames out) (moved : TcpConnection.writeLoop w action = some (w', bytes)) :
    Piped w' frames (out ++ bytes) := by
  have clean : w.sendFailed = false := by
    rw [← Bool.not_eq_true]
    intro failed
    rw [writeLoop_finished (piped.failed failed)] at moved
    cases moved
  have moves := connection_writeLaw w action w' bytes moved fun failed => .inl (piped.failed failed)
  refine ⟨fun failed => ?_, fun still => ?_, ?_⟩
  · rcases (writeLoop_writer moved).1 with same | finished
    · rw [same, clean] at failed
      cases failed
    · exact finished
  · rw [List.append_assoc, ← moves.conserved still]
    exact piped.kept clean
  · cases failed : w'.sendFailed with
    | true =>
        rw [moves.silent failed, List.append_nil]
        exact piped.front
    | false =>
        rw [← piped.kept clean, moves.conserved failed, ← List.append_assoc]
        exact List.prefix_append _ _

namespace TcpServer

theorem Touch.piped {s : TcpServer} {p : Nat} {c d : Connection} {action : Action} {frames : List (List UInt8)}
    {out : List UInt8} (here : s.made[p]? = some c) (touch : s.Touch p c action d)
    (piped : Piped c.writer frames out) :
    Piped d.writer (frames ++ d.writer.writeQueue.drop c.writer.writeQueue.length) (out ++ s.written p action) := by
  cases touch with
  | rest _ writer silent =>
      rw [writer, silent, List.drop_length, List.append_nil, List.append_nil]
      exact piped.alive _
  | push _ _ silent =>
      rw [silent, List.append_nil]
      simpa [Connection.sendPacket, TcpConnection.sendPacket, WriteSide.push] using piped.push _
  | write moved =>
      rw [List.drop_of_length_le (writeLoop_writer moved).2, List.append_nil]
      simpa [written, here, moved] using piped.write moved

theorem Touch.frames {s : TcpServer} {p : Nat} {c d : Connection} {action : Action} (touch : s.Touch p c action d) :
    d.writer.writeQueue.drop c.writer.writeQueue.length =
      if p ∈ s.pointers then action.sends.filterMap (addressed c.sessionId) else [] := by
  cases touch with
  | rest _ writer _ others =>
      rw [writer, List.drop_length]
      split
      · rename_i member
        exact (others member).symm
      · rfl
  | push registered sends =>
      rw [if_pos registered, sends]
      simp [Connection.sendPacket, TcpConnection.sendPacket, WriteSide.push]
  | write moved =>
      rw [List.drop_of_length_le (writeLoop_writer moved).2]
      simp [Action.sends]

end TcpServer

namespace Traffic

/-! ## Windows -/

/-- What a connection was sent: the calls addressed to it while it was registered, in their order. -/
def Window (s : Traffic) (p : Nat) (sessionId : Int) (lo hi : Nat) : Prop :=
  lo ≤ hi ∧ hi ≤ s.calls.length ∧ s.frames p = ((s.calls.take hi).drop lo).filterMap (addressed sessionId)

structure Flowing (s : Traffic) : Prop where
  registry : s.server.Registry
  joined : s.joined.length = s.server.made.length
  later : ∀ p, s.server.made.length ≤ p → s.frames p = [] ∧ s.out p = []
  window : ∀ p c lo, s.server.made[p]? = some c → s.joined[p]? = some lo →
    ∃ hi, s.Window p c.sessionId lo hi ∧ (p ∈ s.server.pointers → hi = s.calls.length)
  piped : ∀ p c, s.server.made[p]? = some c → Piped c.writer (s.frames p) (s.out p)

theorem initial_flowing (handlers : Handlers) : Flowing { server := { handlers } } where
  registry := TcpServer.initial_registry handlers
  joined := rfl
  later _ _ := ⟨rfl, rfl⟩
  window _ _ _ here := by cases here
  piped _ _ here := by cases here

theorem Window.extend {s : Traffic} {p lo hi : Nat} {sessionId : Int} (window : s.Window p sessionId lo hi)
    {t : Traffic} {new : List (Option Int × Packet)} (calls : t.calls = s.calls ++ new) {registered : Prop}
    [Decidable registered] (open_ : registered → hi = s.calls.length)
    (frames : t.frames p = s.frames p ++ if registered then new.filterMap (addressed sessionId) else []) :
    ∃ hi', t.Window p sessionId lo hi' ∧ (registered → hi' = t.calls.length) := by
  obtain ⟨low, high, sent⟩ := window
  by_cases here : registered
  · obtain rfl := open_ here
    refine ⟨t.calls.length, ⟨?_, Nat.le_refl _, ?_⟩, fun _ => rfl⟩
    · rw [calls, List.length_append]
      omega
    · rw [frames, if_pos here, sent, List.take_length, List.take_length, calls, List.drop_append_of_le_length low,
        List.filterMap_append]
  · refine ⟨hi, ⟨low, ?_, ?_⟩, fun still => absurd still here⟩
    · rw [calls, List.length_append]
      omega
    · rw [frames, if_neg here, List.append_nil, sent, calls, List.take_append_of_le_length high]

structure Stepped (s : Traffic) (action : TcpServer.Action) (t : Traffic) : Prop where
  server : s.server.step action = some t.server
  calls : t.calls = s.calls ++ action.sends
  joined : t.joined = if action = .accept then s.joined ++ [s.calls.length] else s.joined
  frames : ∀ p, t.frames p = s.frames p ++ (t.server.writeQueue p).drop (s.server.writeQueue p).length
  out : ∀ p, t.out p = s.out p ++ s.server.written p action

theorem step_stepped {s t : Traffic} {action : TcpServer.Action} (stepped : s.step action = some t) :
    Stepped s action t := by
  obtain ⟨server, moved, rfl⟩ := Option.map_eq_some_iff.mp stepped
  exact ⟨moved, rfl, rfl, fun _ => rfl, fun _ => rfl⟩

theorem Stepped.old {s t : Traffic} {action : TcpServer.Action} (stepped : Stepped s action t) (flowing : Flowing s)
    {p : Nat} {c : Connection} (here : s.server.made[p]? = some c) :
    ∃ d, t.server.made[p]? = some d ∧ Piped d.writer (t.frames p) (t.out p) ∧
      ∀ lo, s.joined[p]? = some lo → ∃ hi, t.Window p d.sessionId lo hi ∧ (p ∈ t.server.pointers → hi = t.calls.length) := by
  obtain ⟨d, there, same, touch⟩ := TcpServer.step_touch stepped.server flowing.registry here
  have grown : t.frames p = s.frames p ++ d.writer.writeQueue.drop c.writer.writeQueue.length := by
    rw [stepped.frames]
    simp [TcpServer.writeQueue, here, there]
  refine ⟨d, there, ?_, fun lo joined => ?_⟩
  · rw [grown, stepped.out]
    exact touch.piped here (flowing.piped p c here)
  · obtain ⟨hi, window, open_⟩ := flowing.window p c lo here joined
    rw [touch.frames] at grown
    obtain ⟨hi', window', open'⟩ := window.extend stepped.calls open_ grown
    rw [same]
    refine ⟨hi', window', fun member => open' ?_⟩
    exact TcpServer.step_pointers stepped.server (List.getElem?_eq_some_iff.mp here).1 member

theorem Stepped.unmade {s t : Traffic} {action : TcpServer.Action} (stepped : Stepped s action t) (flowing : Flowing s)
    {p : Nat} (beyond : s.server.made.length ≤ p) (empty : t.server.writeQueue p = []) :
    t.frames p = [] ∧ t.out p = [] := by
  obtain ⟨frames, out⟩ := flowing.later p beyond
  have missing : s.server.made[p]? = none := List.getElem?_eq_none beyond
  constructor
  · rw [stepped.frames, frames, empty]
    simp
  · rw [stepped.out, out, List.nil_append]
    cases action <;> simp [TcpServer.written, missing]

theorem accept_flowing {s t : Traffic} (stepped : Stepped s .accept t) (flowing : Flowing s) : Flowing t := by
  have registry := TcpServer.step_registry stepped.server flowing.registry
  have made : t.server.made =
      s.server.made ++ [{ sessionId := s.server.nextSessionId, onMessage := s.server.handlers.message }] := by
    have accepted := stepped.server
    simp only [TcpServer.step, TcpServer.accept, Option.ite_none_right_eq_some, Option.some.injEq] at accepted
    rw [← accepted.2]
  have joined : t.joined = s.joined ++ [s.calls.length] := stepped.joined
  have length : t.server.made.length = s.server.made.length + 1 := by simp [made]
  have calls : t.calls = s.calls := by rw [stepped.calls]; exact List.append_nil _
  have newest : t.frames s.server.made.length = [] ∧ t.out s.server.made.length = [] :=
    stepped.unmade flowing (Nat.le_refl _) (by simp [TcpServer.writeQueue, made])
  refine ⟨registry, by simp [joined, length, flowing.joined], fun p beyond => ?_, fun p c lo here known => ?_,
    fun p c here => ?_⟩
  · exact stepped.unmade flowing (by omega) (by simp [TcpServer.writeQueue, List.getElem?_eq_none beyond])
  · by_cases old : p < s.server.made.length
    · obtain ⟨d, there, -, window⟩ := stepped.old flowing (List.getElem?_eq_getElem old)
      obtain rfl := Option.some.inj (here.symm.trans there)
      rw [joined, List.getElem?_append_left (by rw [flowing.joined]; exact old)] at known
      exact window lo known
    · have inside := (List.getElem?_eq_some_iff.mp here).1
      obtain rfl : p = s.server.made.length := by omega
      rw [joined, ← flowing.joined, List.getElem?_concat_length] at known
      obtain rfl := Option.some.inj known
      refine ⟨s.calls.length, ⟨Nat.le_refl _, Nat.le_of_eq (by rw [calls]), ?_⟩, fun _ => by rw [calls]⟩
      rw [newest.1, calls, List.take_length, List.drop_length]
      rfl
  · by_cases old : p < s.server.made.length
    · obtain ⟨d, there, piped, -⟩ := stepped.old flowing (List.getElem?_eq_getElem old)
      obtain rfl := Option.some.inj (here.symm.trans there)
      exact piped
    · have inside := (List.getElem?_eq_some_iff.mp here).1
      obtain rfl : p = s.server.made.length := by omega
      rw [made, List.getElem?_concat_length] at here
      rw [← Option.some.inj here, newest.1, newest.2]
      exact initial_piped

theorem step_flowing {s t : Traffic} {action : TcpServer.Action} (stepped : s.step action = some t)
    (flowing : Flowing s) : Flowing t := by
  have stepped := step_stepped stepped
  by_cases accepts : action = .accept
  · subst accepts
    exact accept_flowing stepped flowing
  · have length := TcpServer.step_length stepped.server accepts
    have joined : t.joined = s.joined := by rw [stepped.joined, if_neg accepts]
    have known {p : Nat} {c : Connection} (here : t.server.made[p]? = some c) : p < s.server.made.length := by
      rw [← length]
      exact (List.getElem?_eq_some_iff.mp here).1
    refine ⟨TcpServer.step_registry stepped.server flowing.registry, by rw [joined, length, flowing.joined],
      fun p beyond => ?_, fun p c lo here since => ?_, fun p c here => ?_⟩
    · exact stepped.unmade flowing (by omega) (by simp [TcpServer.writeQueue, List.getElem?_eq_none beyond])
    · obtain ⟨d, there, -, window⟩ := stepped.old flowing (List.getElem?_eq_getElem (known here))
      obtain rfl := Option.some.inj (here.symm.trans there)
      exact window lo (joined ▸ since)
    · obtain ⟨d, there, piped, -⟩ := stepped.old flowing (List.getElem?_eq_getElem (known here))
      obtain rfl := Option.some.inj (here.symm.trans there)
      exact piped

theorem exec_flowing {handlers : Handlers} {actions : List TcpServer.Action} {s : Traffic}
    (ran : exec step { server := { handlers } } actions = some s) : Flowing s :=
  exec_invariant (fun _ _ _ stepped flowing => step_flowing stepped flowing) ran (initial_flowing handlers)

theorem frozen {s t : Traffic} {more : List TcpServer.Action} {p : Nat} (flowing : Flowing s)
    (known : p < s.server.made.length) (gone : p ∉ s.server.pointers) (run : exec step s more = some t) :
    t.frames p = s.frames p := by
  refine (exec_invariant (P := fun t : Traffic =>
    Flowing t ∧ p < t.server.made.length ∧ p ∉ t.server.pointers ∧ t.frames p = s.frames p) ?_ run
    ⟨flowing, known, gone, rfl⟩).2.2.2
  rintro before action after stepped ⟨flowing, known, gone, same⟩
  have moved := step_stepped stepped
  obtain ⟨d, there, -, touch⟩ := TcpServer.step_touch moved.server flowing.registry (List.getElem?_eq_getElem known)
  refine ⟨step_flowing stepped flowing, (List.getElem?_eq_some_iff.mp there).1,
    fun member => gone (TcpServer.step_pointers moved.server known member), ?_⟩
  have grown := touch.frames
  rw [if_neg gone] at grown
  rw [moved.frames, ← same]
  simp [TcpServer.writeQueue, List.getElem?_eq_getElem known, there, grown]

/-- A connection is sent what is addressed to it from its registration on until it is taken out of the registry, in the
order of the calls; its `write_loop` hands on a prefix of these frames, and all but what waits as long as no send
fails. -/
theorem traffic_in_windows (handlers : Handlers) (actions : List TcpServer.Action) (s : Traffic)
    (ran : exec step { server := { handlers } } actions = some s) (p : Nat) (c : Connection)
    (here : s.server.made[p]? = some c) :
    (∃ lo hi, s.joined[p]? = some lo ∧ lo ≤ hi ∧ hi ≤ s.calls.length ∧
      s.frames p = ((s.calls.take hi).drop lo).filterMap (addressed c.sessionId) ∧
      (p ∈ s.server.pointers → hi = s.calls.length)) ∧
    (p ∉ s.server.pointers → ∀ more t, exec step s more = some t → t.frames p = s.frames p) ∧
    s.out p <+: (s.frames p).flatten ∧
    (c.writer.sendFailed = false → s.out p ++ c.writer.unsent = (s.frames p).flatten) := by
  have flowing := exec_flowing ran
  have known := (List.getElem?_eq_some_iff.mp here).1
  have since := List.getElem?_eq_getElem (flowing.joined ▸ known)
  obtain ⟨hi, ⟨low, high, sent⟩, open_⟩ := flowing.window p c _ here since
  refine ⟨⟨_, hi, since, low, high, sent, open_⟩, fun gone more t run => frozen flowing known gone run, ?_, ?_⟩
  · exact (flowing.piped p c here).front
  · exact (flowing.piped p c here).kept

/-- The second connection comes between two broadcasts; the first is closed before the last of them. -/
def twoConnections : List TcpServer.Action :=
  [.start, .accept, .begin 0, .broadcast ⟨7, []⟩, .accept, .begin 1, .broadcast ⟨8, []⟩, .sendTo 1 ⟨9, []⟩,
    .write 0 .run, .write 0 .run, .write 0 .run, .write 0 (.send (.sent 4)), .closeSession 1, .broadcast ⟨10, []⟩]

theorem traffic_in_windows_of_two :
    ∃ s c, exec step { server := { handlers := ⟨false, true, true⟩ } } twoConnections = some s ∧
      s.server.made[0]? = some c ∧ s.out 0 <+: (s.frames 0).flatten ∧
      s.frames 0 = [encode ⟨7, []⟩, encode ⟨8, []⟩, encode ⟨9, []⟩] ∧
      s.frames 1 = [encode ⟨8, []⟩, encode ⟨10, []⟩] := by
  obtain ⟨s, ran⟩ : ∃ s, exec step { server := { handlers := ⟨false, true, true⟩ } } twoConnections = some s := ⟨_, rfl⟩
  obtain ⟨c, here⟩ : ∃ c, s.server.made[0]? = some c := by
    rw [← Option.some.inj ran]
    exact ⟨_, rfl⟩
  refine ⟨s, c, ran, here, (traffic_in_windows ⟨false, true, true⟩ twoConnections s ran 0 c here).2.2.1, ?_, ?_⟩
  · rw [← Option.some.inj ran]
    rfl
  · rw [← Option.some.inj ran]
    rfl

end Traffic

end ServerFramework.Tcp
