import Mathlib.Algebra.Group.Int.Defs
import Mathlib.Algebra.Group.Nat.Defs
import ServerFramework.Library.Heap
import ServerFramework.Library.Runs

namespace ServerFramework.Base
open Library Library.Heap

def int64 (x : Int) : Int := x.bmod (2 ^ 64)

def InInt64 (x : Int) : Prop := -2 ^ 63 ≤ x ∧ x < 2 ^ 63

instance (x : Int) : Decidable (InInt64 x) := inferInstanceAs (Decidable (_ ∧ _))

structure TimerItem (κ : Type) where
  id : Int := 0
  expireAt : Int := 0
  intervalMs : Int := 0
  callback : Option κ := none
  cancelled : Bool := false
  deriving DecidableEq, Repr

def TimerItem.isRepeating {κ : Type} (item : TimerItem κ) : Bool := item.intervalMs > 0

structure Timer (κ : Type) where
  nextId : Int := 0
  items : List (TimerItem κ) := []
  deriving DecidableEq, Repr

namespace Timer

variable {κ : Type} (heap : HeapAlgorithms (@TimerItem.expireAt κ))

def arm (timer : Timer κ) (now afterMs intervalMs : Int) (cb : Option κ) : Timer κ :=
  let item : TimerItem κ := ⟨timer.nextId + 1, int64 (now + afterMs), intervalMs, cb, false⟩
  ⟨timer.nextId + 1, heap.pushHeap (timer.items ++ [item])⟩

def add (timer : Timer κ) (now afterMs : Int) (cb : Option κ) : Int × Timer κ :=
  if cb.isNone ∨ afterMs ≤ 0 then (-1, timer)
  else (timer.nextId + 1, arm heap timer now afterMs 0 cb)

def addRepeating (timer : Timer κ) (now intervalMs : Int) (cb : Option κ) : Int × Timer κ :=
  if cb.isNone ∨ intervalMs ≤ 0 then (-1, timer)
  else (timer.nextId + 1, arm heap timer now intervalMs intervalMs cb)

def cancelItem (timerId : Int) : List (TimerItem κ) → Bool × List (TimerItem κ)
  | [] => (false, [])
  | item :: rest =>
      if item.id = timerId then (true, { item with cancelled := true } :: rest)
      else
        let (found, rest) := cancelItem timerId rest
        (found, item :: rest)

def cancel (timer : Timer κ) (timerId : Int) : Bool × Timer κ :=
  let (found, items) := cancelItem timerId timer.items
  (found, { timer with items })

def clear (timer : Timer κ) : Timer κ := { timer with items := [] }

def extractBody (nowMs : Int) : List (TimerItem κ) × List (TimerItem κ) →
    (List (TimerItem κ) × List (TimerItem κ)) ⊕ (List (TimerItem κ) × List (TimerItem κ))
  | ([], fired) => .inr ([], fired)
  | (top :: rest, fired) =>
      if top.cancelled then .inl ((heap.popHeap (top :: rest)).dropLast, fired)
      else if top.expireAt > nowMs then .inr (top :: rest, fired)
      else
        let popped := heap.popHeap (top :: rest)
        .inl (popped.dropLast, fired ++ popped.getLast?.toList)

def extract (nowMs : Int) (items : List (TimerItem κ)) :
    Option (List (TimerItem κ) × List (TimerItem κ)) :=
  loop (extractBody heap nowMs) (items.length + 1) (items, [])

def rearm (nowMs : Int) (timer : Timer κ) (t : TimerItem κ) : Timer κ :=
  if t.intervalMs > 0 then arm heap timer nowMs t.intervalMs t.intervalMs t.callback else timer

/-- One round of the loop over `fired`, with a callback that returns and leaves the timer alone. -/
def fire (nowMs : Int) (state : Timer κ × List (TimerItem κ)) (t : TimerItem κ) :
    Timer κ × List (TimerItem κ) :=
  if t.cancelled then state
  else (rearm heap nowMs state.1 t, if t.callback.isSome then state.2 ++ [t] else state.2)

def untilFront (timer : Timer κ) (nowMs : Int) : Int :=
  match timer.items with
  | [] => -1
  | front :: _ => int64 (front.expireAt - nowMs)

def nearestExpire (timer : Timer κ) : Int :=
  if timer.items.isEmpty then -1
  else match timer.items.find? fun item => !item.cancelled with
    | some item => item.expireAt
    | none => -1

structure PollResult (κ : Type) where
  timer : Timer κ
  invoked : List (TimerItem κ)
  returned : Int
  deriving DecidableEq, Repr

def poll (timer : Timer κ) (nowMs : Int) : Option (PollResult κ) := do
  let (items, fired) ← extract heap nowMs timer.items
  let (timer, invoked) := fired.foldl (fire heap nowMs) ({ timer with items }, [])
  return ⟨timer, invoked, untilFront timer nowMs⟩

inductive Call (κ : Type)
  | add (now afterMs : Int) (cb : Option κ)
  | addRepeating (now intervalMs : Int) (cb : Option κ)
  | cancel (timerId : Int)
  | clear
  | poll (nowMs : Int)

def call (timer : Timer κ) : Call κ → Option (Timer κ)
  | .add now afterMs cb => some (add heap timer now afterMs cb).2
  | .addRepeating now intervalMs cb => some (addRepeating heap timer now intervalMs cb).2
  | .cancel timerId => some (cancel timer timerId).2
  | .clear => some (clear timer)
  | .poll nowMs => (poll heap timer nowMs).map (·.timer)

end Timer

end ServerFramework.Base
