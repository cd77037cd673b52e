import Std.Data.HashSet
import KvServer.Store.Strings
import KvServer.Store.Lists
import KvServer.Blocking
import KvServer.Timer
import KvServer.Transactions
import KvServer.Replication

/-!
# Server state

Everything the server holds: the two stores, the blocked pops, the transaction queues, the timer
queue, the replication state, the replies waiting to be handed to connections, and which
connections are open. A reply for a connection that is no longer open is dropped.

A push hands its data to the blocked pops of its key; a pop served this way is recorded for the
replicas as its own `LPOP key`, after the push. A blocked pop whose deadline has come, whether a
push or its timer finds it first, is answered with null; one whose connection has closed is
skipped without taking data.
-/

namespace KvServer

/-- What a timer stands for. -/
inductive TimerTask where
  /-- Answer a blocked pop with null if it is still waiting. -/
  | blockTimeout (key : String) (blockId : Nat)
  /-- Try to reach the master again. -/
  | reconnectMaster
  deriving DecidableEq, Inhabited

/-- A reply produced outside its connection's request and reply order. -/
structure Delivery where
  conn : ConnId
  reply : Value
  /-- The reply completes a suspended command, so the connection may go on. -/
  resumes : Bool
  deriving Inhabited

/-- The state of a server. -/
structure Server where
  strings : Strings := {}
  lists : Lists := {}
  waiters : Waiters := {}
  transactions : Transactions := {}
  timers : TimerQueue TimerTask := {}
  replication : Replication
  /-- Set while EXEC runs a queue: nothing may suspend then. -/
  replaying : Bool := false
  /-- The port the server listens on. -/
  port : UInt16
  outbox : List Delivery := []
  live : Std.HashSet ConnId := {}
  nextConn : ConnId := 1
  deriving Inhabited

namespace Server

/-- A fresh server. -/
def new (role : Role) (port : UInt16) : Server :=
  { replication := Replication.new role, port }

/-- Opens a connection and answers its id. -/
def connectionOpened (s : Server) : ConnId × Server :=
  (s.nextConn, { s with nextConn := s.nextConn + 1, live := s.live.insert s.nextConn })

/-- Forgets a closed connection everywhere but in the queues of blocked pops, where it is skipped
the next time its key is served. -/
def connectionClosed (s : Server) (c : ConnId) : Server :=
  { s with
    live := s.live.erase c
    transactions := s.transactions.remove c
    replication := (s.replication.removeReplica c).2 }

/-- Whether connection `c` is open. -/
def isLive (s : Server) (c : ConnId) : Bool :=
  s.live.contains c

/-- Records a write for the replicas. -/
def record (s : Server) (event : Value) : Server :=
  { s with replication := s.replication.record event }

/-- Queues a reply for connection `c`, if it is open. -/
def deliver (s : Server) (c : ConnId) (reply : Value) (resumes : Bool) : Server :=
  if s.isLive c then { s with outbox := s.outbox ++ [{ conn := c, reply, resumes }] } else s

/-- Takes every queued reply, in order. -/
def takeDeliveries (s : Server) : List Delivery × Server :=
  (s.outbox, { s with outbox := [] })

/-- Parks connection `c` on `key`, with a timer if it has a deadline. A deadline past the
clock's horizon means waiting forever. -/
def block (s : Server) (now : Instant) (key : String) (c : ConnId) (timeout : Option Nat) :
    Server :=
  let deadline := timeout.bind (Clock.later? now)
  let (b, waiters) := s.waiters.block key c deadline
  let timers := match deadline with
    | some d => s.timers.registerAt d (.blockTimeout key b.id)
    | none => s.timers
  { s with waiters, timers }

/-- Carries out the wake-ups of a push, in order. -/
def applyWakeups (s : Server) : List Wakeup → Server
  | [] => s
  | .served c key v :: ws =>
    ((s.record (Value.command ["LPOP", key])).deliver c (Value.command [key, v]) true).applyWakeups ws
  | .timedOut c :: ws => (s.deliver c .null true).applyWakeups ws

/-- Hands freshly pushed data on `key` to its blocked pops. -/
def wake (s : Server) (now : Instant) (key : String) : Server :=
  let (ws, waiters, lists) := s.waiters.onPush s.lists key s.isLive now
  { s with waiters, lists }.applyWakeups ws

/-- A block's timer: answers it with null if it is still waiting. -/
def expireBlock (s : Server) (key : String) (id : Nat) : Server :=
  match s.waiters.expire key id with
  | (some c, waiters) => { s with waiters }.deliver c .null true
  | (none, _) => s

/-- Takes every timer task due at `now`. -/
def dueTimers (s : Server) (now : Instant) : List TimerTask × Server :=
  let (tasks, timers) := s.timers.tick now
  (tasks, { s with timers })

/-- What the server itself does when a task comes due: a block's timeout answers it, and a
reconnect clears the pending flag (connecting is the event loop's part). -/
def fire (s : Server) : TimerTask → Server
  | .blockTimeout key id => s.expireBlock key id
  | .reconnectMaster => { s with replication := { s.replication with retryPending := false } }

/-- Takes the tasks due at `now` and fires them in order. -/
def runTimers (s : Server) (now : Instant) : List TimerTask × Server :=
  let (tasks, s) := s.dueTimers now
  (tasks, tasks.foldl fire s)

end Server

end KvServer
