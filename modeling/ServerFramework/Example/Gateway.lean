import ServerFramework.Business.Router
import ServerFramework.Business.SessionMgr
import ServerFramework.Core.ThreadPool
import ServerFramework.Network.Traffic

namespace ServerFramework.Example
open Protocol Tcp ServerFramework.Core Business

def cmdLogin : UInt16 := 0x0002
def cmdLogout : UInt16 := 0x0003
def cmdData : UInt16 := 0x0004

/-- "login_ok" -/
def loginOk : List UInt8 := [0x6c, 0x6f, 0x67, 0x69, 0x6e, 0x5f, 0x6f, 0x6b]

inductive Handler
  | login
  | logout
  | data
  deriving DecidableEq, Repr

/-- What the lambda passed to `append` has captured. -/
structure Job where
  sessionId : Int
  pkt : Packet
  deriving DecidableEq, Repr

def registrations : List (Router.Call Handler) :=
  [.reg cmdLogin .login, .reg cmdLogout .logout, .reg cmdData .data]

def handlers : AList fun _ : UInt16 => Handler :=
  ((AList.insert cmdLogin Handler.login ∅).insert cmdLogout .logout).insert cmdData .data

-- `pending` has, for every connection whose reader is in the message handler and not yet through `append`, the job;
-- `jobs` the jobs by the ticket of their task; `routing` the task that a worker still has to hand to its handler;
-- `answered` the tasks in the order in which their handlers were called or found missing.
structure Gateway (n : Nat) where
  net : Traffic := { server := { handlers := ⟨true, true, true⟩ } }
  pool : ThreadPool n := {}
  router : Router (Fin n) Handler := { handlers, log := registrations.map fun call => (call, none) }
  sessions : SessionMgr := {}
  pending : AList fun _ : Nat => Job := ∅
  jobs : List Job := []
  routing : Fin n → Option Nat := fun _ => none
  answered : List Nat := []
  signalled : Bool := false

namespace Gateway

variable {n : Nat}

/-- `net` is everything the sockets, the readers and the writers do, `worker` what a worker does up to its task. The
signal handler calls `stop` on the server and then `shutdown` on the pool. -/
inductive Action (n : Nat)
  | net (action : TcpServer.Action) (tick : UInt64)
  | append (p : Nat)
  | worker (action : ThreadPool.Action n)
  | execute (i : Fin n)
  | enter (i : Fin n)
  | handle (i : Fin n)
  | unlock (i : Fin n)
  | finish (i : Fin n)
  | signal
  | shutdown (action : ThreadPool.Action n)

def external : TcpServer.Action → Bool
  | .start | .accept | .begin _ | .read _ _ _ | .write _ _ | .erase _ | .notify _ | .heartbeat _ => true
  | _ => false

def fetches : ThreadPool.Action n → Bool
  | .notifyOne _ | .acquire _ | .evaluate _ | .block _ | .spurious _ | .take _ => true
  | _ => false

def ends : ThreadPool.Action n → Bool
  | .stop | .notifyAll | .join => true
  | _ => false

def reader : TcpServer.Action → Option Nat
  | .read p _ _ => some p
  | _ => none

/-- The three handlers set in `main`; the session id is narrowed to an `int` for `add`. -/
def callback (reader : Option Nat) (tick : UInt64) (g : Gateway n) : Int × Callback → Gateway n
  | (sid, .connected) => { g with sessions := g.sessions.add (Int32.ofInt sid).toInt "0.0.0.0" 0 tick }
  | (sid, .message pkt) => match reader with
      | none => g
      | some p => { g with pending := g.pending.insert p ⟨sid, pkt⟩ }
  | (sid, .closed) => { g with sessions := g.sessions.remove sid }

def onNet (g : Gateway n) (action : TcpServer.Action) (tick : UInt64) : Option (Gateway n) :=
  -- a reader is inside the message handler until its `append` has returned
  if external action ∧ ((reader action).bind fun p => g.pending.lookup p) = none then
    (g.net.step action).map fun net =>
      (net.server.log.drop g.net.server.log.length).foldl (callback (reader action) tick) { g with net }
  else none

def append (g : Gateway n) (p : Nat) : Option (Gateway n) :=
  (g.pending.lookup p).bind fun job =>
    (ThreadPool.step .shutdown g.pool (.append .normal)).map fun pool =>
      { g with pool, jobs := g.jobs ++ [job], pending := g.pending.erase p }

def execute (g : Gateway n) (i : Fin n) : Option (Gateway n) :=
  match g.pool.workers i with
  | .holding task => g.jobs[task.ticket]?.bind fun job =>
      (ThreadPool.step .shutdown g.pool (.execute i)).bind fun pool =>
        (g.router.step (.call i (.route job.sessionId job.pkt))).map fun router =>
          { g with pool, router, routing := Function.update g.routing i (some task.ticket) }
  | _ => none

def answer (g : Gateway n) (i : Fin n) : Gateway n :=
  { g with answered := g.answered ++ (g.routing i).toList, routing := Function.update g.routing i none }

def enter (g : Gateway n) (i : Fin n) : Option (Gateway n) :=
  (g.router.step (.enter i)).map fun router =>
    match router.phases i with
    | .outside => { g.answer i with router }
    | _ => { g with router }

def handleLogin (g : Gateway n) (sid : Int) : Option (Gateway n) :=
  (g.net.step (.sendTo sid ⟨cmdLogin, loginOk⟩)).map fun net => { g with net }

def handleData (g : Gateway n) (sid : Int) (data : List UInt8) : Option (Gateway n) :=
  (g.net.step (.sendTo sid ⟨cmdData, data⟩)).map fun net => { g with net }

def handleLogout (g : Gateway n) (sid : Int) : Gateway n := { g with sessions := g.sessions.remove sid }

def callHandler (g : Gateway n) (sid : Int) (data : List UInt8) : Handler → Option (Gateway n)
  | .login => g.handleLogin sid
  | .logout => some (g.handleLogout sid)
  | .data => g.handleData sid data

def handle (g : Gateway n) (i : Fin n) : Option (Gateway n) :=
  match g.router.phases i with
  | .calling handler sid pkt => (g.router.step (.handle i)).bind fun router =>
      (callHandler { g.answer i with router } sid pkt.data handler)
  | _ => none

def step (g : Gateway n) : Action n → Option (Gateway n)
  | .net action tick => g.onNet action tick
  | .append p => g.append p
  | .worker action =>
      if fetches action then (ThreadPool.step .shutdown g.pool action).map fun pool => { g with pool } else none
  | .execute i => g.execute i
  | .enter i => g.enter i
  | .handle i => g.handle i
  | .unlock i => (g.router.step (.unlock i)).map fun router => { g with router }
  | .finish i => match g.router.phases i with
      | .outside => (ThreadPool.step .shutdown g.pool (.finish i)).map fun pool => { g with pool }
      | _ => none
  | .signal => (g.net.step .stop).map fun net => { g with net, signalled := true }
  | .shutdown action =>
      if g.signalled ∧ ends action then (ThreadPool.step .shutdown g.pool action).map fun pool => { g with pool }
      else none

/-! ## What the gateway is for -/

def reply (pkt : Packet) : Option Packet :=
  if pkt.cmd = cmdLogin then some ⟨cmdLogin, loginOk⟩
  else if pkt.cmd = cmdData then some ⟨cmdData, pkt.data⟩
  else none

/-- The messages of a connection, in the order in which its reader took them out of the byte stream. -/
def messages (g : Gateway n) (p : Nat) : List Packet :=
  match g.net.server.made[p]? with
  | none => []
  | some c => c.reader.delivered

/-- The packets sent to a session. -/
def replies (g : Gateway n) (sid : Int) : List Packet :=
  (g.net.calls.filter fun call => call.1 = some sid).map Prod.snd

end Gateway

end ServerFramework.Example
