import ServerFramework.Base.MessageQueue

namespace ServerFramework.Base

namespace CvQueue

-- What a call does next. It holds `mtx_` within a step only, and the step that falls asleep gives it up. `checking` is
-- on its way to the predicate, `woken` was notified or woke by itself, and the time of `expired` is over.
inductive Thread {τ : Type} (δ : τ → Type)
  | sending (msg : Message δ)
  | notifying
  | sent
  | checking (asked : τ) (timeoutMs : Int)
  | waiting (asked : τ) (timeoutMs : Int)
  | woken (asked : τ) (timeoutMs : Int)
  | expired (asked : τ) (timeoutMs : Nat)
  | trying (asked : τ)
  | comparing (asked : τ) (msg : Message δ)
  | returned (asked : τ) (out : Option (δ asked))

inductive Action {τ : Type} (δ : τ → Type)
  | send (msg : Message δ)
  | recv (asked : τ) (timeoutMs : Int)
  | tryRecv (asked : τ)
  | advance (i : Nat)
  | notifyOne (i : Nat) (target : Option Nat)
  | spurious (i : Nat)
  | timeOut (i : Nat)

def Thread.waits {τ : Type} {δ : τ → Type} : Thread δ → Bool
  | .waiting _ _ => true
  | _ => false

end CvQueue

-- `MessageQueue` with its condition variable.
structure CvQueue {τ : Type} (δ : τ → Type) where
  queue : List (Message δ) := []
  threads : List (CvQueue.Thread δ) := []
  sent : List (Message δ) := []
  taken : List (Nat × Message δ) := []

namespace CvQueue

variable {τ : Type} {δ : τ → Type}

def begin (s : CvQueue δ) (thread : Thread δ) : CvQueue δ := { s with threads := s.threads ++ [thread] }

def put (s : CvQueue δ) (i : Nat) (thread : Thread δ) : CvQueue δ := { s with threads := s.threads.set i thread }

def push (s : CvQueue δ) (i : Nat) (msg : Message δ) : CvQueue δ :=
  { s.put i .notifying with queue := s.queue ++ [msg], sent := s.sent ++ [msg] }

def pop (s : CvQueue δ) (i : Nat) (asked : τ) (msg : Message δ) (rest : List (Message δ)) : CvQueue δ :=
  { s.put i (.comparing asked msg) with queue := rest, taken := s.taken ++ [(i, msg)] }

/-- A look at the queue under the lock: `empty` is what the call does where it finds nothing. -/
def look (s : CvQueue δ) (i : Nat) (asked : τ) (empty : Thread δ) : CvQueue δ :=
  match s.queue with
  | [] => s.put i empty
  | msg :: rest => s.pop i asked msg rest

def turn [DecidableEq τ] (s : CvQueue δ) (i : Nat) : Thread δ → Option (CvQueue δ)
  | .sending msg => some (s.push i msg)
  | .checking asked timeoutMs | .woken asked timeoutMs => some (s.look i asked (.waiting asked timeoutMs))
  | .expired asked _ | .trying asked => some (s.look i asked (.returned asked none))
  | .comparing asked msg => some (s.put i (.returned asked (msg.cast asked)))
  | .notifying | .sent | .waiting _ _ | .returned _ _ => none

def wake : Thread δ → Option (Thread δ)
  | .waiting asked timeoutMs => some (.woken asked timeoutMs)
  | _ => none

/-- The deadline of `wait_for` passes, also for a thread that has been notified. -/
def expire : Thread δ → Option (Thread δ)
  | .waiting asked timeoutMs | .woken asked timeoutMs =>
      if 0 ≤ timeoutMs then some (.expired asked timeoutMs.toNat) else none
  | _ => none

/-- `notify_one` wakes one of the threads that wait, if there is one. -/
def notify (s : CvQueue δ) (i : Nat) (target : Option Nat) : Thread δ → Option (CvQueue δ)
  | .notifying => match target with
      | none => if ∀ thread ∈ s.threads, thread.waits = false then some (s.put i .sent) else none
      | some j => (s.threads[j]?.bind wake).map fun thread => (s.put j thread).put i .sent
  | _ => none

def step [DecidableEq τ] (s : CvQueue δ) : Action δ → Option (CvQueue δ)
  | .send msg => some (s.begin (.sending msg))
  | .recv asked timeoutMs => some (s.begin (.checking asked timeoutMs))
  | .tryRecv asked => some (s.begin (.trying asked))
  | .advance i => s.threads[i]?.bind (s.turn i)
  | .notifyOne i target => s.threads[i]?.bind (s.notify i target)
  | .spurious i => (s.threads[i]?.bind wake).map (s.put i)
  | .timeOut i => (s.threads[i]?.bind expire).map (s.put i)

end CvQueue

end ServerFramework.Base
