import ServerFramework.Proof.Network.Messages

namespace ServerFramework.Tcp
open Protocol Library

namespace TcpServer

/-! ## The two ends of a connection -/

def readerAt (s : TcpServer) (p : Nat) : ReadSide Packet :=
  match s.made[p]? with
  | none => {}
  | some c => c.reader

def writerAt (s : TcpServer) (p : Nat) : WriteSide :=
  match s.made[p]? with
  | none => {}
  | some c => c.writer

theorem readerAt_of_made {s : TcpServer} {p : Nat} {c : Connection} (here : s.made[p]? = some c) :
    s.readerAt p = c.reader := by
  simp [readerAt, here]

theorem writerAt_of_made {s : TcpServer} {p : Nat} {c : Connection} (here : s.made[p]? = some c) :
    s.writerAt p = c.writer := by
  simp [writerAt, here]

theorem writeQueue_eq (s : TcpServer) (p : Nat) : s.writeQueue p = (s.writerAt p).writeQueue := by
  rw [writeQueue, writerAt]
  cases s.made[p]? <;> rfl

/-- The reader of connection `p` under a step of the server. -/
inductive Draw (p : Nat) (r : ReadSide Packet) : Action → ReadSide Packet → Prop
  | rest {action : Action} (alive : Bool) (other : ∀ input request, action ≠ .read p input request) :
      Draw p r action { r with alive }
  | read {input left : List UInt8} {request : ReadAction} {reader : ReadSide Packet}
      (moved : TcpConnection.readLoop r input request = some (reader, left)) : Draw p r (.read p input request) reader

theorem Draw.still {p : Nat} {r : ReadSide Packet} {action : Action}
    (other : ∀ input request, action ≠ .read p input request) : Draw p r action r := .rest r.alive other

theorem update_draw {s : TcpServer} {action : Action} {p q : Nat} {c d : Connection} (there : s.made[q]? = some c)
    (same : d.reader = c.reader) (other : ∀ input request, action ≠ .read p input request) :
    Draw p (s.readerAt p) action ((s.update q d).readerAt p) := by
  have inside := (List.getElem?_eq_some_iff.mp there).1
  have still : (s.update q d).readerAt p = s.readerAt p := by
    by_cases equal : q = p
    · subst equal
      rw [readerAt_of_made there, ← same, readerAt, update, List.getElem?_set_self inside]
    · simp [readerAt, update, List.getElem?_set_ne equal]
  rw [still]
  exact .still other

theorem forEach_draw {s : TcpServer} {action : Action} (chosen : Int → Bool) {f : Connection → Connection} (p : Nat)
    (keeps : ∀ c, ∃ alive, (f c).reader = { c.reader with alive })
    (other : ∀ input request, action ≠ .read p input request) :
    Draw p (s.readerAt p) action ((s.forEach chosen f).readerAt p) := by
  rw [readerAt, readerAt, forEach, foldl_modify]
  cases s.made[p]? with
  | none => exact .still other
  | some c =>
      generalize ((s.connections.filter fun entry => chosen entry.1).map Prod.snd).count p = n
      dsimp only [Option.map_some]
      have closed : ∃ alive, (f^[n] c).reader = { c.reader with alive } := by
        induction n with
        | zero => exact ⟨c.reader.alive, rfl⟩
        | succ n ih =>
            obtain ⟨alive, same⟩ := ih
            obtain ⟨alive', again⟩ := keeps (f^[n] c)
            rw [Function.iterate_succ_apply', again, same]
            exact ⟨alive', rfl⟩
      obtain ⟨alive, same⟩ := closed
      rw [same]
      exact .rest alive other

theorem accept_ends {s t : TcpServer} (accepted : s.accept = some t) (p : Nat) :
    t.readerAt p = s.readerAt p ∧ t.writerAt p = s.writerAt p := by
  simp only [accept, Option.ite_none_right_eq_some, Option.some.injEq] at accepted
  obtain ⟨-, rfl⟩ := accepted
  by_cases old : p < s.made.length
  · simp [readerAt, writerAt, List.getElem?_append_left old]
  · rw [readerAt, readerAt, writerAt, writerAt, List.getElem?_append_right (Nat.le_of_not_lt old),
      List.getElem?_eq_none (Nat.le_of_not_lt old)]
    cases p - s.made.length with
    | zero => exact ⟨rfl, rfl⟩
    | succ k => exact ⟨rfl, rfl⟩

theorem step_draw {s t : TcpServer} {action : Action} (stepped : s.step action = some t) (p : Nat) :
    Draw p (s.readerAt p) action (t.readerAt p) := by
  cases action with
  | start =>
      obtain rfl := Option.some.inj stepped
      exact .still (by simp)
  | accept =>
      rw [(accept_ends stepped p).1]
      exact .still (by simp)
  | begin q | erase q | notify q =>
      rw [step] at stepped
      obtain ⟨c, there, -, rest⟩ := withConnection_some stepped
      obtain rfl := Option.some.inj rest
      exact update_draw (d := { c with life := _ }) there rfl (by simp)
  | write q action =>
      rw [step] at stepped
      obtain ⟨c, there, -, rest⟩ := withConnection_some stepped
      obtain ⟨-, -, rfl⟩ := Option.map_eq_some_iff.mp rest
      exact update_draw there rfl (by simp)
  | read q input request =>
      rw [step] at stepped
      obtain ⟨c, there, -, rest⟩ := withConnection_some stepped
      obtain ⟨⟨reader, left⟩, moved, rfl⟩ := Option.map_eq_some_iff.mp rest
      have inside := (List.getElem?_eq_some_iff.mp there).1
      by_cases same : q = p
      · subst same
        have now : (s.read q c reader).readerAt q = reader := by
          simp [readerAt, read, call, update, inside, Connection.afterRead]
        rw [now, readerAt_of_made there]
        exact .read moved
      · have still : (s.read q c reader).readerAt p = s.readerAt p := by
          simp [readerAt, read, call, update, List.getElem?_set_ne same]
        rw [still]
        exact .still (by simp [same])
  | heartbeat idle =>
      obtain rfl := Option.some.inj stepped
      exact forEach_draw _ p (fun c => ⟨false, rfl⟩) (by simp)
  | broadcast pkt =>
      obtain rfl := Option.some.inj stepped
      exact forEach_draw _ p (fun c => ⟨c.reader.alive, rfl⟩) (by simp)
  | closeSession sessionId =>
      obtain rfl := Option.some.inj stepped
      exact forEach_draw (fun other => other = sessionId) p (fun c => ⟨false, rfl⟩) (by simp)
  | stop =>
      obtain rfl := Option.some.inj stepped
      rw [stop]
      split
      · exact forEach_draw (fun _ => true) p (fun c => ⟨false, rfl⟩) (by simp)
      · exact .still (by simp)
  | sendTo sessionId pkt =>
      obtain rfl := Option.some.inj stepped
      rw [sendTo]
      split
      · exact .still (by simp)
      · split
        · exact .still (by simp)
        · rename_i c there
          exact update_draw there rfl (by simp)

end TcpServer

namespace Traffic

/-- The writer of a connection, what was pushed on it and what it wrote, under a step of the server. -/
inductive Turn (w : WriteSide) (frames : List (List UInt8)) (out : List UInt8) (sends : List (List UInt8)) :
    WriteSide → List (List UInt8) → List UInt8 → Prop
  | rest (alive : Bool) : Turn w frames out sends { w with alive } frames out
  | push {pkt : Packet} (sent : sends = [encode pkt]) : Turn w frames out sends (w.push pkt) (frames ++ [encode pkt]) out
  | write {action : WriteAction} {w' : WriteSide} {bytes : List UInt8}
      (moved : TcpConnection.writeLoop w action = some (w', bytes)) : Turn w frames out sends w' frames (out ++ bytes)

theorem Stepped.turn {s t : Traffic} {action : TcpServer.Action} (stepped : Stepped s action t) (flowing : Flowing s)
    (p : Nat) : Turn (s.server.writerAt p) (s.frames p) (s.out p) (action.sends.filterMap (addressed (p + 1)))
      (t.server.writerAt p) (t.frames p) (t.out p) := by
  cases here : s.server.made[p]? with
  | some c =>
      obtain ⟨d, there, -, touch⟩ := TcpServer.step_touch stepped.server flowing.registry here
      have frames : t.frames p = s.frames p ++ d.writer.writeQueue.drop c.writer.writeQueue.length := by
        rw [stepped.frames]
        simp [TcpServer.writeQueue, here, there]
      have known := flowing.registry.sessionId here
      rw [frames, stepped.out, TcpServer.writerAt_of_made here, TcpServer.writerAt_of_made there]
      cases touch with
      | rest _ writer silent =>
          rw [writer, silent, List.drop_length, List.append_nil, List.append_nil]
          exact .rest _
      | @push _ pkt _ sends silent =>
          have queued : (c.sendPacket pkt).2.writer.writeQueue.drop c.writer.writeQueue.length = [encode pkt] := by
            simp [Connection.sendPacket, TcpConnection.sendPacket, WriteSide.push]
          rw [silent, List.append_nil, ← known, sends, queued]
          exact .push rfl
      | write moved =>
          rw [List.drop_of_length_le (writeLoop_writer moved).2, List.append_nil]
          simpa [TcpServer.written, here, moved] using Turn.write moved
  | none =>
      have beyond : s.server.made.length ≤ p := List.getElem?_eq_none_iff.mp here
      have before : s.server.writerAt p = {} := by simp [TcpServer.writerAt, here]
      have after : t.server.writerAt p = {} := by
        by_cases accepts : action = .accept
        · subst accepts
          rw [(TcpServer.accept_ends stepped.server p).2, before]
        · rw [TcpServer.writerAt, List.getElem?_eq_none (by rw [TcpServer.step_length stepped.server accepts]; exact beyond)]
      obtain ⟨frames, out⟩ := flowing.later p beyond
      obtain ⟨frames', out'⟩ := stepped.unmade flowing beyond (by rw [TcpServer.writeQueue_eq, after])
      rw [before, after, frames, out, frames', out']
      exact .rest true

theorem Flowing.halted {s : Traffic} (flowing : Flowing s) (p : Nat) : (s.server.writerAt p).Halted := by
  intro failed
  cases here : s.server.made[p]? with
  | none => simp [TcpServer.writerAt, here] at failed
  | some c =>
      rw [TcpServer.writerAt_of_made here] at failed ⊢
      exact .inl ((flowing.piped p c here).failed failed)

end Traffic

end ServerFramework.Tcp
