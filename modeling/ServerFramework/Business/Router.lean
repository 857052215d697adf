import Mathlib.Data.List.AList
import Mathlib.Logic.Function.Basic
import ServerFramework.Library.Runs
import ServerFramework.Network.Packet

namespace ServerFramework.Business
open Protocol

namespace Router

inductive Call (η : Type)
  | reg (cmd : UInt16) (handler : η)
  | unreg (cmd : UInt16)
  | route (sessionId : Int) (pkt : Packet)
  | has (cmd : UInt16)

def Call.cmd {η : Type} : Call η → UInt16
  | .reg cmd _ | .unreg cmd | .has cmd => cmd
  | .route _ pkt => pkt.cmd

/-- Where a thread stands: outside, waiting for `mutex_`, in a handler that `route` called or back from it with the
lock still held, or waiting inside a handler for the lock that it holds itself. -/
inductive Phase (η : Type)
  | outside
  | locking (call : Call η)
  | calling (handler : η) (sessionId : Int) (pkt : Packet)
  | called
  | reentering (call : Call η)

end Router

-- `log` has the calls in the order in which they got the lock, with what `handlers_` had for the command then.
structure Router (ι η : Type) where
  handlers : AList fun _ : UInt16 => η := ∅
  mutex : Option ι := none
  phases : ι → Router.Phase η := fun _ => .outside
  log : List (Router.Call η × Option η) := []

namespace Router

variable {ι η : Type} [DecidableEq ι]

inductive Action (ι η : Type)
  | call (i : ι) (call : Call η)
  | enter (i : ι)
  | handle (i : ι)
  | unlock (i : ι)

def setPhase (router : Router ι η) (i : ι) (phase : Phase η) : Router ι η :=
  { router with phases := Function.update router.phases i phase }

/-- A thread that waits in a handler for its own lock waits for ever. -/
def begin (router : Router ι η) (i : ι) (call : Call η) : Option (Router ι η) :=
  match router.phases i with
  | .outside => some (router.setPhase i (.locking call))
  | .calling _ _ _ => some (router.setPhase i (.reentering call))
  | _ => none

/-- The body behind the `lock_guard`; only a handler outlasts it. -/
def locked (router : Router ι η) (i : ι) : Call η → Router ι η
  | .reg cmd handler => { router.setPhase i .outside with handlers := router.handlers.insert cmd handler }
  | .unreg cmd => { router.setPhase i .outside with handlers := router.handlers.erase cmd }
  | .has _ => router.setPhase i .outside
  | .route sessionId pkt => match router.handlers.lookup pkt.cmd with
      | none => router.setPhase i .outside
      | some handler => { router.setPhase i (.calling handler sessionId pkt) with mutex := some i }

def enter (router : Router ι η) (i : ι) : Option (Router ι η) :=
  match router.phases i with
  | .locking call =>
      if router.mutex.isNone then
        some { router.locked i call with log := router.log ++ [(call, router.handlers.lookup call.cmd)] }
      else none
  | _ => none

def step (router : Router ι η) : Action ι η → Option (Router ι η)
  | .call i call => router.begin i call
  | .enter i => router.enter i
  | .handle i => match router.phases i with
      | .calling _ _ _ => some (router.setPhase i .called)
      | _ => none
  | .unlock i => match router.phases i with
      | .called => some { router.setPhase i .outside with mutex := none }
      | _ => none

/-! ## What a history of calls leaves registered -/

def registered (cmd : UInt16) (calls : List (Call η)) : Option η :=
  calls.foldl (fun now call => match call with
    | .reg other handler => if other = cmd then some handler else now
    | .unreg other => if other = cmd then none else now
    | _ => now) none

end Router

end ServerFramework.Business
