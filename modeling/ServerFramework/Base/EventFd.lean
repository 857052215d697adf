import Mathlib.Data.List.AList

namespace ServerFramework.Base

abbrev EventType := UInt32

namespace EventType

def READ : EventType := (1 : UInt32) <<< 0

def WRITE : EventType := (1 : UInt32) <<< 1

def ERROR : EventType := (1 : UInt32) <<< 2

def CLOSED : EventType := (1 : UInt32) <<< 3

def hasFlag (flags f : EventType) : Bool := flags &&& f ≠ 0

end EventType

def EPOLLIN : UInt32 := 0x001

def EPOLLOUT : UInt32 := 0x004

def EPOLLERR : UInt32 := 0x008

def EPOLLHUP : UInt32 := 0x010

-- `data` holds the bytes of the union: `fd` is its low half, `ptr` all of it.
structure EpollEvent where
  events : UInt32
  data : UInt64
  deriving DecidableEq, Repr

namespace EpollEvent

def fd (ev : EpollEvent) : Int32 := ev.data.toUInt32.toInt32

def setFd (ev : EpollEvent) (fd : Int32) : EpollEvent :=
  { ev with data := (ev.data &&& 0xFFFFFFFF00000000) ||| fd.toUInt32.toUInt64 }

def ptr (ev : EpollEvent) : UInt64 := ev.data

def setPtr (ev : EpollEvent) (ptr : UInt64) : EpollEvent := { ev with data := ptr }

end EpollEvent

structure HandlerCall where
  handler : UInt64
  fd : Int32
  type : EventType
  deriving DecidableEq, Repr

-- The part of an `EventLoop` on Linux that has to do with descriptors. `interest` is what the kernel keeps for
-- `epoll_fd_`; a handler is its address, 0 for a null pointer.
structure FdEvents where
  epollFd : Int32 := -1
  fdHandlers : AList fun _ : Int32 => UInt64 := ∅
  eventsSize : Nat := 0
  eventsCapacity : Nat := 0
  interest : AList fun _ : Int32 => EpollEvent := ∅

namespace FdEvents

def reserve (loop : FdEvents) (n : Nat) : FdEvents := { loop with eventsCapacity := max loop.eventsCapacity n }

def new : FdEvents := ({} : FdEvents).reserve 64

/-- `epollFd` is what `epoll_create1` returns. -/
def init (loop : FdEvents) (epollFd : Int32) : Bool × FdEvents := (0 ≤ epollFd, { loop with epollFd := epollFd })

inductive CtlOp
  | add
  | mod
  deriving DecidableEq, Repr

/-- `epoll_ctl`; `accepts` is whether the kernel has no objection of its own to the descriptor. -/
def epollCtl (loop : FdEvents) (op : CtlOp) (fd : Int32) (ev : EpollEvent) (accepts : Bool) : Option FdEvents :=
  let present := op == .mod
  if loop.epollFd < 0 || !accepts || (loop.interest.lookup fd).isSome != present then none
  else some { loop with interest := loop.interest.insert fd ev }

def eventOf (fd : Int32) (type : EventType) (handler : UInt64) : EpollEvent :=
  let ev : EpollEvent := ⟨0, 0⟩
  let ev := if type.hasFlag .READ then { ev with events := ev.events ||| EPOLLIN } else ev
  let ev := if type.hasFlag .WRITE then { ev with events := ev.events ||| EPOLLOUT } else ev
  let ev := { ev with events := ev.events ||| (EPOLLERR ||| EPOLLHUP) }
  (ev.setFd fd).setPtr handler

def addFd (loop : FdEvents) (fd : Int32) (type : EventType) (handler : UInt64) (accepts : Bool) : Bool × FdEvents :=
  let op := if (loop.fdHandlers.lookup fd).isSome then CtlOp.mod else CtlOp.add
  match loop.epollCtl op fd (eventOf fd type handler) accepts with
  | none => (false, loop)
  | some loop => (true, { loop with fdHandlers := loop.fdHandlers.insert fd handler })

def delFd (loop : FdEvents) (fd : Int32) : Bool × FdEvents :=
  (true, { loop with interest := loop.interest.erase fd, fdHandlers := loop.fdHandlers.erase fd })

def modFd (loop : FdEvents) (fd : Int32) (type : EventType) (accepts : Bool) : Bool × FdEvents :=
  match loop.fdHandlers.lookup fd with
  | none => (false, loop)
  | some handler => loop.addFd fd type handler accepts

/-! ## Waiting and dispatching -/

/-- What the kernel has to report when `signals` are ready: the flags, with the data stored for the descriptor. -/
def reports (loop : FdEvents) (signals : List (Int32 × UInt32)) : List EpollEvent :=
  signals.filterMap fun (fd, flags) => (loop.interest.lookup fd).map fun ev => { ev with events := flags }

def epollWait (ready : List EpollEvent) (maxevents : Nat) : Option (List EpollEvent) :=
  if maxevents = 0 then none else some (ready.take maxevents)

def typeOf (flags : UInt32) : EventType :=
  let type := EventType.READ
  let type := if flags &&& EPOLLIN ≠ 0 then type ||| .READ else type
  let type := if flags &&& EPOLLOUT ≠ 0 then type ||| .WRITE else type
  let type := if flags &&& EPOLLERR ≠ 0 then type ||| .ERROR else type
  if flags &&& EPOLLHUP ≠ 0 then type ||| .CLOSED else type

def dispatch (ev : EpollEvent) : Option HandlerCall :=
  if ev.ptr = 0 then none else some ⟨ev.ptr, ev.fd, typeOf ev.events⟩

/-- The calls of `on_event` in a `run_once`, behind the tasks and the timers. -/
def runOnce (loop : FdEvents) (signals : List (Int32 × UInt32)) : List HandlerCall :=
  if loop.epollFd < 0 then []
  else match epollWait (loop.reports signals) loop.eventsSize with
    | none => []
    | some events => events.filterMap dispatch

inductive Action
  | addFd (fd : Int32) (type : EventType) (handler : UInt64) (accepts : Bool)
  | delFd (fd : Int32)
  | modFd (fd : Int32) (type : EventType) (accepts : Bool)
  deriving DecidableEq, Repr

def apply (loop : FdEvents) : Action → FdEvents
  | .addFd fd type handler accepts => (loop.addFd fd type handler accepts).2
  | .delFd fd => (loop.delFd fd).2
  | .modFd fd type accepts => (loop.modFd fd type accepts).2

end FdEvents

end ServerFramework.Base
