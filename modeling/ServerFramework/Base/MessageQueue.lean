import Mathlib.Data.List.Basic
import ServerFramework.Library.Runs

namespace ServerFramework.Base

-- A type of the program is its `type_index`, and `δ` has its values.
structure Message {τ : Type} (δ : τ → Type) where
  type : τ
  data : δ type

/-- The comparison of the types and the cast behind it. -/
def Message.cast {τ : Type} [DecidableEq τ] {δ : τ → Type} (msg : Message δ) (asked : τ) : Option (δ asked) :=
  if same : msg.type = asked then some (same ▸ msg.data) else none

namespace MessageQueue

-- What a call does next. `comparing` has popped its message and given the lock up; `returned` has what `out` was set
-- to, or nothing where the call returned false.
inductive Call {τ : Type} (δ : τ → Type)
  | sending (msg : Message δ)
  | sent
  | receiving (asked : τ) (timeoutMs : Int)
  | trying (asked : τ)
  | comparing (asked : τ) (msg : Message δ)
  | returned (asked : τ) (out : Option (δ asked))

inductive Action {τ : Type} (δ : τ → Type)
  | send (msg : Message δ)
  | recv (asked : τ) (timeoutMs : Int)
  | tryRecv (asked : τ)
  | advance (i : Nat)
  | timeOut (i : Nat)

end MessageQueue

-- Any number of threads, a call of its own for each of them. `sent` has the messages in the order in which they were
-- pushed, `taken` those that were popped, with the calls that popped them.
structure MessageQueue {τ : Type} (δ : τ → Type) where
  queue : List (Message δ) := []
  calls : List (MessageQueue.Call δ) := []
  sent : List (Message δ) := []
  taken : List (Nat × Message δ) := []

namespace MessageQueue

variable {τ : Type} {δ : τ → Type}

def begin (s : MessageQueue δ) (call : Call δ) : MessageQueue δ := { s with calls := s.calls ++ [call] }

def push (s : MessageQueue δ) (i : Nat) (msg : Message δ) : MessageQueue δ :=
  { s with queue := s.queue ++ [msg], calls := s.calls.set i .sent, sent := s.sent ++ [msg] }

def pop (s : MessageQueue δ) (i : Nat) (asked : τ) (msg : Message δ) (rest : List (Message δ)) : MessageQueue δ :=
  { s with queue := rest, calls := s.calls.set i (.comparing asked msg), taken := s.taken ++ [(i, msg)] }

def answer (s : MessageQueue δ) (i : Nat) (asked : τ) (out : Option (δ asked)) : MessageQueue δ :=
  { s with calls := s.calls.set i (.returned asked out) }

def turn [DecidableEq τ] (s : MessageQueue δ) (i : Nat) : Call δ → Option (MessageQueue δ)
  | .sending msg => some (s.push i msg)
  | .receiving asked _ => match s.queue with
      | [] => none
      | msg :: rest => some (s.pop i asked msg rest)
  | .trying asked => match s.queue with
      | [] => some (s.answer i asked none)
      | msg :: rest => some (s.pop i asked msg rest)
  | .comparing asked msg => some (s.answer i asked (msg.cast asked))
  | .sent | .returned _ _ => none

/-- `wait_for` gives up after its time, if the queue is still empty then. -/
def expire (s : MessageQueue δ) (i : Nat) : Call δ → Option (MessageQueue δ)
  | .receiving asked timeoutMs =>
      if 0 ≤ timeoutMs ∧ s.queue.isEmpty then some (s.answer i asked none) else none
  | _ => none

def step [DecidableEq τ] (s : MessageQueue δ) : Action δ → Option (MessageQueue δ)
  | .send msg => some (s.begin (.sending msg))
  | .recv asked timeoutMs => some (s.begin (.receiving asked timeoutMs))
  | .tryRecv asked => some (s.begin (.trying asked))
  | .advance i => s.calls[i]?.bind (s.turn i)
  | .timeOut i => s.calls[i]?.bind (s.expire i)

end MessageQueue

end ServerFramework.Base
