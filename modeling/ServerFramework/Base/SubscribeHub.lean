import Mathlib.Algebra.Group.Int.Defs
import Mathlib.Data.List.AList
import ServerFramework.Library.Runs

namespace ServerFramework.Base

-- The types that messages can have; `std::any` stands apart, because a value of it is not wrapped once more.
inductive TypeIndex (τ : Type)
  | any
  | plain (type : τ)
  deriving DecidableEq, Repr

inductive Value {τ : Type} (δ : τ → Type)
  | plain (type : τ) (data : δ type)
  | emptyAny
  | anyOf (held : Value δ)

namespace Value

variable {τ : Type} {δ : τ → Type}

def type : Value δ → TypeIndex τ
  | plain type _ => .plain type
  | emptyAny | anyOf _ => .any

/-- `std::any a = std::forward<T>(msg)`: from a `std::any` it takes what that one holds. -/
def toAny : Value δ → Option (Value δ)
  | plain type data => some (plain type data)
  | emptyAny => none
  | anyOf held => some held

/-- `std::any_cast<T>(a)`; where there is none it throws. -/
def anyCast [DecidableEq τ] (a : Option (Value δ)) (type : TypeIndex τ) : Option (Value δ) :=
  a.filter fun held => held.type = type

end Value

section

variable {τ : Type} (δ : τ → Type) (σ ε : Type)

-- What callbacks do: their effects on whatever they work on, and the calls of them, by subscription.
structure Effects where
  world : σ
  invoked : List (Int × Value δ) := []

abbrev SubscribeCallback := Value δ → σ → σ × Option ε

structure AnyCallback where
  id : Int
  fn : Option (Value δ) → Effects δ σ → Effects δ σ × Option ε

inductive SubscribeHub.Answer
  | subscribed (id : Int)
  | unsubscribed (found : Bool)
  | published (invoked : List (Int × Value δ))

-- `answers` has what the calls returned, and for `publish` the callbacks it invoked.
structure SubscribeHub where
  callbacks : AList fun _ : TypeIndex τ => List (AnyCallback δ σ ε) := ∅
  nextSubId : Int := 1
  world : σ
  answers : List (SubscribeHub.Answer δ) := []

inductive SubscribeHub.Action
  | subscribe (type : TypeIndex τ) (cb : SubscribeCallback δ σ ε)
  | unsubscribe (type : TypeIndex τ) (subId : Int)
  | publish (msg : Value δ)

end

namespace SubscribeHub

variable {τ : Type} {δ : τ → Type} {σ ε : Type} [DecidableEq τ]

def invoke (id : Int) (cb : SubscribeCallback δ σ ε) (msg : Value δ) (effects : Effects δ σ) :
    Effects δ σ × Option ε :=
  let (world, thrown) := cb msg effects.world
  (⟨world, effects.invoked ++ [(id, msg)]⟩, thrown)

/-- The lambda that `subscribe` stores: it catches what the cast and the callback throw. -/
def adapt (type : TypeIndex τ) (id : Int) (cb : SubscribeCallback δ σ ε) : AnyCallback δ σ ε where
  id := id
  fn a effects := match Value.anyCast a type with
    | none => (effects, none)
    | some msg => ((invoke id cb msg effects).1, none)

def listed (hub : SubscribeHub δ σ ε) (type : TypeIndex τ) : List (AnyCallback δ σ ε) :=
  (hub.callbacks.lookup type).getD []

def subscribe (hub : SubscribeHub δ σ ε) (type : TypeIndex τ) (cb : SubscribeCallback δ σ ε) : SubscribeHub δ σ ε :=
  { hub with
    callbacks := hub.callbacks.insert type (hub.listed type ++ [adapt type hub.nextSubId cb])
    nextSubId := hub.nextSubId + 1
    answers := hub.answers ++ [.subscribed hub.nextSubId] }

def unsubscribe (hub : SubscribeHub δ σ ε) (type : TypeIndex τ) (subId : Int) : SubscribeHub δ σ ε :=
  match hub.callbacks.lookup type with
  | none => { hub with answers := hub.answers ++ [.unsubscribed false] }
  | some vec => match vec.findIdx? (·.id = subId) with
      | none => { hub with answers := hub.answers ++ [.unsubscribed false] }
      | some i =>
          { hub with
            callbacks := hub.callbacks.insert type (vec.eraseIdx i)
            answers := hub.answers ++ [.unsubscribed true] }

/-- The loop of `publish`; `catch (...) {}` lets nothing out of a round. -/
def broadcast (a : Option (Value δ)) (callbacks : List (AnyCallback δ σ ε)) (effects : Effects δ σ) : Effects δ σ :=
  callbacks.foldl (fun effects p => (p.fn a effects).1) effects

def publish (hub : SubscribeHub δ σ ε) (msg : Value δ) : SubscribeHub δ σ ε :=
  let a := msg.toAny
  match hub.callbacks.lookup msg.type with
  | none => { hub with answers := hub.answers ++ [.published []] }
  | some vec =>
      let effects := broadcast a vec ⟨hub.world, []⟩
      { hub with world := effects.world, answers := hub.answers ++ [.published effects.invoked] }

def step (hub : SubscribeHub δ σ ε) : Action δ σ ε → Option (SubscribeHub δ σ ε)
  | .subscribe type cb =>
      -- `next_sub_id_++` overflows otherwise
      if hub.nextSubId + 1 < 2 ^ 31 then some (hub.subscribe type cb) else none
  | .unsubscribe type subId => some (hub.unsubscribe type subId)
  | .publish msg => some (hub.publish msg)

end SubscribeHub

end ServerFramework.Base
