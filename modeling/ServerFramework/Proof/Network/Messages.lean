import ServerFramework.Proof.Network.Traffic

namespace ServerFramework.Tcp
open Protocol Library

namespace TcpServer

/-! ## What the readers hand to the message handler -/

def delivered (s : TcpServer) (p : Nat) : List Packet :=
  match s.made[p]? with
  | none => []
  | some c => c.reader.delivered

/-- A message handler is set, and every connection has got it. -/
structure Listening (s : TcpServer) : Prop where
  server : s.handlers.message = true
  connections : ∀ (p : Nat) c, s.made[p]? = some c → c.onMessage = true

inductive Heard (s t : TcpServer) : Action → Prop
  | message {p : Nat} {input : List UInt8} {action : ReadAction} (new : List Packet) (few : new.length ≤ 1)
      (delivered : t.delivered = Function.update s.delivered p (s.delivered p ++ new))
      (log : t.log = s.log ++ new.map fun pkt => ((p : Int) + 1, .message pkt)) : Heard s t (.read p input action)
  | nothing {action : Action} (delivered : t.delivered = s.delivered) (closed : List Int)
      (log : t.log = s.log ++ closed.map fun sessionId => (sessionId, .closed)) : Heard s t action

theorem readLoop_delivers {r r' : ReadSide Packet} {channel channel' : List UInt8} {action : ReadAction}
    (stepped : TcpConnection.readLoop r channel action = some (r', channel')) :
    ∃ new, new.length ≤ 1 ∧ r'.delivered = r.delivered ++ new := by
  rcases connection_readLaw.cases _ _ _ _ _ stepped with ⟨-, rfl, -⟩ | ⟨-, same, -⟩ | ⟨-, -, -, -, same, -⟩
  · cases packetFraming.parse r.readBuf with
    | error e => exact ⟨[], by simp, by simp [ReadSide.parsed]⟩
    | ok result =>
        cases result with
        | none => exact ⟨[], by simp, by simp [ReadSide.parsed]⟩
        | some entry => exact ⟨[entry.1], by simp, by simp [ReadSide.parsed]⟩
  · exact ⟨[], by simp, by simp [same]⟩
  · exact ⟨[], by simp, by simp [same]⟩

theorem delivered_of_made {s : TcpServer} {p : Nat} {c : Connection} (here : s.made[p]? = some c) :
    s.delivered p = c.reader.delivered := by
  simp [delivered, here]

theorem update_delivered {s : TcpServer} {p : Nat} {c d : Connection} (here : s.made[p]? = some c) :
    (s.update p d).delivered = Function.update s.delivered p d.reader.delivered := by
  funext q
  have inside := (List.getElem?_eq_some_iff.mp here).1
  by_cases same : q = p
  · subst same
    simp [delivered, update, inside]
  · simp [delivered, update, List.getElem?_set_ne (Ne.symm same), same]

theorem same_delivered {s : TcpServer} {p : Nat} {c d : Connection} (here : s.made[p]? = some c)
    (same : d.reader.delivered = c.reader.delivered) : (s.update p d).delivered = s.delivered := by
  rw [update_delivered here, same, ← delivered_of_made here, Function.update_eq_self]

theorem forEach_delivered (s : TcpServer) (chosen : Int → Bool) {f : Connection → Connection}
    (same : ∀ c, (f c).reader.delivered = c.reader.delivered) : (s.forEach chosen f).delivered = s.delivered := by
  funext p
  rw [delivered, delivered, forEach, foldl_modify]
  cases s.made[p]? with
  | none => rfl
  | some c =>
      generalize ((s.connections.filter fun entry => chosen entry.1).map Prod.snd).count p = n
      dsimp only [Option.map_some]
      induction n with
      | zero => rfl
      | succ n ih => rw [Function.iterate_succ_apply', same, ih]

theorem accept_delivered {s t : TcpServer} (made : ∃ c : Connection, t.made = s.made ++ [c] ∧ c.reader.delivered = []) :
    t.delivered = s.delivered := by
  obtain ⟨c, made, fresh⟩ := made
  funext p
  rw [delivered, delivered, made]
  by_cases old : p < s.made.length
  · rw [List.getElem?_append_left old]
  · rw [List.getElem?_append_right (Nat.le_of_not_lt old), List.getElem?_eq_none (Nat.le_of_not_lt old)]
    cases p - s.made.length with
    | zero => simpa using fresh
    | succ k => simp

theorem step_heard {s t : TcpServer} {action : Action} (stepped : s.step action = some t) (registry : Registry s)
    (listening : Listening s) : Heard s t action := by
  cases action with
  | start =>
      obtain rfl := Option.some.inj stepped
      exact .nothing rfl [] (List.append_nil _).symm
  | accept =>
      simp only [step, accept, Option.ite_none_right_eq_some, Option.some.injEq] at stepped
      obtain ⟨-, rfl⟩ := stepped
      exact .nothing (accept_delivered ⟨_, rfl, rfl⟩) [] (List.append_nil _).symm
  | begin p =>
      rw [step] at stepped
      obtain ⟨c, here, -, rest⟩ := withConnection_some stepped
      obtain rfl := Option.some.inj rest
      have unconnected : c.onConnected = false :=
        registry.consistent.unconnected p c.view (views_of_made here)
      refine .nothing (same_delivered here rfl) [] ?_
      simp [begin, call, update, unconnected]
  | read p input action =>
      rw [step] at stepped
      obtain ⟨c, here, -, rest⟩ := withConnection_some stepped
      obtain ⟨⟨reader, left⟩, moved, rfl⟩ := Option.map_eq_some_iff.mp rest
      obtain ⟨new, few, delivered⟩ := readLoop_delivers moved
      refine .message new few ?_ ?_
      · rw [delivered_of_made here, ← delivered]
        exact update_delivered here
      · have set : c.onMessage = true := listening.connections p c here
        simp [read, call, update, set, delivered, registry.sessionId here]
  | write p action =>
      rw [step] at stepped
      obtain ⟨c, here, -, rest⟩ := withConnection_some stepped
      obtain ⟨-, -, rfl⟩ := Option.map_eq_some_iff.mp rest
      exact .nothing (same_delivered here rfl) [] (List.append_nil _).symm
  | erase p =>
      rw [step] at stepped
      obtain ⟨c, here, -, rest⟩ := withConnection_some stepped
      obtain rfl := Option.some.inj rest
      exact .nothing (same_delivered here rfl) [] (List.append_nil _).symm
  | notify p =>
      rw [step] at stepped
      obtain ⟨c, here, -, rest⟩ := withConnection_some stepped
      obtain rfl := Option.some.inj rest
      refine .nothing (same_delivered here rfl) (if s.handlers.close then [c.sessionId] else []) ?_
      simp only [notify, call, update]
      split <;> rfl
  | heartbeat idle =>
      obtain rfl := Option.some.inj stepped
      exact .nothing (forEach_delivered s _ fun _ => rfl) [] (List.append_nil _).symm
  | closeSession sessionId =>
      obtain rfl := Option.some.inj stepped
      exact .nothing (forEach_delivered s (fun other => other = sessionId) fun _ => rfl) [] (List.append_nil _).symm
  | stop =>
      obtain rfl := Option.some.inj stepped
      rw [stop]
      split
      · exact .nothing (forEach_delivered s (fun _ => true) fun _ => rfl) [] (List.append_nil _).symm
      · exact .nothing rfl [] (List.append_nil _).symm
  | sendTo sessionId pkt =>
      obtain rfl := Option.some.inj stepped
      rw [sendTo]
      split
      · exact .nothing rfl [] (List.append_nil _).symm
      · split
        · exact .nothing rfl [] (List.append_nil _).symm
        · rename_i c here
          exact .nothing (same_delivered here rfl) [] (List.append_nil _).symm
  | broadcast pkt =>
      obtain rfl := Option.some.inj stepped
      exact .nothing (forEach_delivered s _ fun _ => rfl) [] (List.append_nil _).symm

theorem Listening.update {s t : TcpServer} (listening : Listening s) {p : Nat} {c d : Connection}
    (here : s.made[p]? = some c) (server : t.handlers = s.handlers) (made : t.made = s.made.set p d)
    (same : d.onMessage = c.onMessage) : Listening t where
  server := server ▸ listening.server
  connections q e there := by
    rw [made] at there
    by_cases equal : p = q
    · subst equal
      have inside := (List.getElem?_eq_some_iff.mp here).1
      obtain rfl : d = e := by simpa [inside] using there
      rw [same]
      exact listening.connections p c here
    · rw [List.getElem?_set_ne equal] at there
      exact listening.connections q e there

theorem Listening.forEach {s t : TcpServer} (listening : Listening s) (chosen : Int → Bool)
    {f : Connection → Connection} (server : t.handlers = s.handlers) (made : t.made = (s.forEach chosen f).made)
    (same : ∀ c, (f c).onMessage = c.onMessage) : Listening t where
  server := server ▸ listening.server
  connections p d there := by
    rw [made, TcpServer.forEach, foldl_modify] at there
    obtain ⟨c, here, rfl⟩ := Option.map_eq_some_iff.mp there
    generalize ((s.connections.filter fun entry => chosen entry.1).map Prod.snd).count p = n
    induction n with
    | zero => exact listening.connections p c here
    | succ n ih => rw [Function.iterate_succ_apply', same, ih]

theorem step_listening {s t : TcpServer} {action : Action} (stepped : s.step action = some t)
    (listening : Listening s) : Listening t := by
  cases action with
  | start =>
      obtain rfl := Option.some.inj stepped
      exact ⟨listening.server, listening.connections⟩
  | accept =>
      simp only [step, accept, Option.ite_none_right_eq_some, Option.some.injEq] at stepped
      obtain ⟨-, rfl⟩ := stepped
      refine ⟨listening.server, fun p c there => ?_⟩
      rcases List.mem_append.mp (List.mem_of_getElem? there) with old | new
      · obtain ⟨q, here⟩ := List.mem_iff_getElem?.mp old
        exact listening.connections q c here
      · rw [List.mem_singleton.mp new]
        exact listening.server
  | begin p | erase p | notify p =>
      rw [step] at stepped
      obtain ⟨c, here, -, rest⟩ := withConnection_some stepped
      obtain rfl := Option.some.inj rest
      exact listening.update here rfl rfl rfl
  | read p input action | write p action =>
      rw [step] at stepped
      obtain ⟨c, here, -, rest⟩ := withConnection_some stepped
      obtain ⟨-, -, rfl⟩ := Option.map_eq_some_iff.mp rest
      exact listening.update here rfl rfl rfl
  | heartbeat idle | broadcast pkt =>
      obtain rfl := Option.some.inj stepped
      exact listening.forEach _ rfl rfl fun _ => rfl
  | closeSession sessionId =>
      obtain rfl := Option.some.inj stepped
      exact listening.forEach (fun other => other = sessionId) rfl rfl fun _ => rfl
  | stop =>
      obtain rfl := Option.some.inj stepped
      rw [stop]
      split
      · exact listening.forEach (fun _ => true) rfl rfl fun _ => rfl
      · exact listening
  | sendTo sessionId pkt =>
      obtain rfl := Option.some.inj stepped
      rw [sendTo]
      split
      · exact listening
      · split
        · exact listening
        · rename_i c here
          exact listening.update here rfl rfl rfl

end TcpServer

end ServerFramework.Tcp
