import KvServer.Connection

/-!
# The event loop

One loop owns every connection and the server state. Each turn takes the events the sockets
report, in the order given: a new connection, a failed accept (after which accepting pauses for
100 ms and the socket is closed), the outcome of connecting to the master, a connection that can
be read or written, or one whose socket failed. Then, in this order, the turn fires the due
timers, hands deferred replies to their connections until none are left (resuming one may
produce more), sends the recorded writes to every attached replica, writes what every
connection has pending, closes the connections marked for closing, and on a replica whose link
to its master is down schedules a reconnect two seconds later.

A connection that fails is only marked; it is closed at the end of the turn, so nothing in the
turn refers to a connection that is gone.
-/

namespace KvServer

/-- A connection with its socket. -/
structure Link where
  conn : Connection
  sock : Connection.Socket := {}
  deriving Inhabited

/-- What the sockets report to the loop. -/
inductive Event where
  /-- A client connected from `peer`. -/
  | accepted (peer : String)
  /-- Accepting a connection failed; that connection's socket is closed. -/
  | acceptFailed
  /-- Connecting to the master ended: connected to `peer`, or failed. -/
  | masterConnected (peer : Option String)
  /-- The connection's socket can be read. -/
  | readable (id : ConnId)
  /-- The connection's socket can be written. -/
  | writable (id : ConnId)
  /-- The connection's socket failed. -/
  | failed (id : ConnId)
  deriving Inhabited

/-- How long accepting pauses after a failed accept, in nanoseconds. -/
def acceptBackoff : Nat := 100 * Clock.nanosPerMilli

/-- How long a replica waits before reconnecting to its master, in nanoseconds. -/
def reconnectInterval : Nat := 2000 * Clock.nanosPerMilli

/-- The event loop's state. -/
structure Reactor where
  server : Server
  /-- The open connections, in the order of their ids. -/
  links : List Link := []
  /-- A connect to the master is under way. -/
  connecting : Bool := false
  acceptPausedUntil : Option Instant := none
  /-- How many sockets were closed because accepting them failed. -/
  refused : Nat := 0
  deriving Inhabited

namespace Reactor

/-- The link of connection `id`. -/
def link? (r : Reactor) (id : ConnId) : Option Link :=
  r.links.find? (·.conn.id == id)

/-- Changes the link of connection `id`, if there is one. -/
def modifyLink (r : Reactor) (id : ConnId) (f : Link → Link) : Reactor :=
  { r with links := r.links.map fun l => if l.conn.id == id then f l else l }

/-- Marks connection `id` to be closed at the end of the turn. -/
def markClose (r : Reactor) (id : ConnId) : Reactor :=
  r.modifyLink id fun l => { l with conn := { l.conn with wantClose := true } }

/-- Starts connecting to the master, on a replica. -/
def connectToMaster (r : Reactor) : Reactor :=
  match r.server.replication.role with
  | .master => r
  | .replica _ =>
    { r with connecting := true,
             server := { r.server with replication := { r.server.replication with masterDown := false } } }

/-- A loop for a server; a replica starts by connecting to its master. -/
def new (s : Server) : Reactor :=
  connectToMaster { server := s }

/-- Whether accepting is paused at `now`. -/
def acceptPaused (r : Reactor) (now : Instant) : Bool :=
  r.acceptPausedUntil.any (now < ·)

/-- Handles one event. -/
def handle (r : Reactor) (now : Instant) : Event → Reactor
  | .accepted peer =>
    let (id, s) := r.server.connectionOpened
    { r with server := s, links := r.links ++ [{ conn := Connection.new id peer }] }
  | .acceptFailed =>
    { r with acceptPausedUntil := some (now + acceptBackoff), refused := r.refused + 1 }
  | .masterConnected (some peer) =>
    let (id, s) := r.server.connectionOpened
    { r with server := s, connecting := false,
             links := r.links ++ [{ conn := Connection.replicaLink id peer s.port }] }
  | .masterConnected none =>
    { r with connecting := false,
             server := { r.server with replication := r.server.replication.markMasterDown } }
  | .readable id =>
    match r.link? id with
    | none => r
    | some l =>
      let (e, c, sock, s) := l.conn.onReadable l.sock r.server now
      let c := if e.isSome then { c with wantClose := true } else c
      { r.modifyLink id fun _ => { conn := c, sock } with server := s }
  | .writable id =>
    match r.link? id with
    | none => r
    | some l =>
      match l.conn.flush l.sock.outgoing with
      | .ok (c, outgoing) => r.modifyLink id fun l => { conn := c, sock := { l.sock with outgoing } }
      | .error _ => r.markClose id
  | .failed id => r.markClose id

/-- Fires the due timers: a block's timeout answers it, a reconnect starts connecting. -/
def runTimers (r : Reactor) (now : Instant) : Reactor :=
  let (tasks, s) := r.server.dueTimers now
  tasks.foldl (fun r t =>
    match t with
    | .blockTimeout key id => { r with server := r.server.expireBlock key id }
    | .reconnectMaster =>
      connectToMaster { r with server := r.server.fire .reconnectMaster }) { r with server := s }

/-- Hands one deferred reply to its connection; a reply for a connection that is gone is
dropped. -/
def handOver (r : Reactor) (now : Instant) (d : Delivery) : Reactor :=
  match r.link? d.conn with
  | none => r
  | some l =>
    let (h, c, s) := l.conn.handOver d r.server now
    let c := match h with
      | .handed (some _) => { c with wantClose := true }
      | _ => c
    { r.modifyLink d.conn fun l => { l with conn := c } with server := s }

/-- Hands out deferred replies until none are left. A round after the first has replies only if
the round before resumed a connection that then took buffered frames, so rounds beyond the
number of buffered bytes are never needed. -/
def deliverWith (now : Instant) : Nat → Reactor → Reactor
  | 0, r => r
  | fuel + 1, r =>
    let (ds, s) := r.server.takeDeliveries
    if ds.isEmpty then r
    else deliverWith now fuel (ds.foldl (handOver · now) { r with server := s })

/-- The bytes buffered in every connection. -/
def buffered (r : Reactor) : Nat :=
  r.links.foldl (fun n l => n + l.conn.inbound.len) 0

/-- Hands out every deferred reply. -/
def deliverDeferred (r : Reactor) (now : Instant) : Reactor :=
  deliverWith now (r.buffered + 2) r

/-- Flushes connection `id`, marking it to close if the socket fails. -/
def flushLink (r : Reactor) (id : ConnId) : Reactor :=
  match r.link? id with
  | none => r
  | some l =>
    match l.conn.flush l.sock.outgoing with
    | .ok (c, outgoing) => r.modifyLink id fun l => { conn := c, sock := { l.sock with outgoing } }
    | .error _ => r.markClose id

/-- Sends every recorded write to every attached replica. -/
def fanOut (r : Reactor) : Reactor :=
  if r.server.replication.events.isEmpty then r
  else
    let (events, repl) := r.server.replication.drain
    let r := { r with server := { r.server with replication := repl } }
    repl.replicas.foldl (fun r id =>
      match r.link? id with
      | none => r
      | some _ =>
        let r := r.modifyLink id fun l => { l with conn := events.foldl Connection.send l.conn }
        r.flushLink id) r

/-- Writes what every connection has pending. -/
def flushAll (r : Reactor) : Reactor :=
  r.links.foldl (fun r l => if l.conn.wantWrite then r.flushLink l.conn.id else r) r

/-- Closes the connections marked for closing; losing the link to the master marks it down. -/
def closeFinished (r : Reactor) : Reactor :=
  r.links.foldl (fun r l =>
    if !l.conn.wantClose then r
    else
      let s := r.server.connectionClosed l.conn.id
      let s := if l.conn.isReplicaLink then
        { s with replication := s.replication.markMasterDown } else s
      { r with server := s, links := r.links.filter (·.conn.id != l.conn.id) }) r

/-- On a replica whose master link is down, schedules one reconnect. -/
def scheduleReconnect (r : Reactor) (now : Instant) : Reactor :=
  if r.connecting || !r.server.replication.needsReconnect then r
  else
    let s := r.server
    { r with server := { s with
      replication := { s.replication with retryPending := true },
      timers := s.timers.registerTimeout now reconnectInterval .reconnectMaster } }

/-- One turn of the loop at `now`, with the events the sockets reported. -/
def turn (r : Reactor) (now : Instant) (events : List Event) : Reactor :=
  let r := events.foldl (handle · now) r
  let r := r.runTimers now
  let r := r.deliverDeferred now
  let r := r.fanOut
  let r := r.flushAll
  let r := r.closeFinished
  r.scheduleReconnect now

/-- When a connection that starts waiting at `now` is accepted: at once, or when the pause after a
failed accept ends. -/
def acceptTime (r : Reactor) (now : Instant) : Instant :=
  max now (r.acceptPausedUntil.getD now)

/-- The turn that accepts a connection waiting since `now` from `peer`; a peer address that is not
an IP address (`none`) makes the accept fail. -/
def accept (r : Reactor) (now : Instant) (peer : Option String) : Reactor :=
  r.turn (r.acceptTime now) [match peer with | some p => .accepted p | none => .acceptFailed]

/-- Bytes from connection `id`'s peer arrive on its socket. -/
def receive (r : Reactor) (id : ConnId) (bs : List UInt8) : Reactor :=
  r.modifyLink id fun l => { l with sock := { l.sock with incoming := l.sock.incoming.put bs } }

/-- Connection `id`'s peer shuts down its side for writing. -/
def hangUp (r : Reactor) (id : ConnId) : Reactor :=
  r.modifyLink id fun l =>
    { l with sock := { l.sock with incoming := { l.sock.incoming with writerClosed := true } } }

/-- Connection `id`'s peer reads every byte the server has written to it. -/
def collect (r : Reactor) (id : ConnId) : List UInt8 × Reactor :=
  match r.link? id with
  | none => ([], r)
  | some l =>
    let (bs, outgoing) := l.sock.outgoing.take
    (bs, r.modifyLink id fun l => { l with sock := { l.sock with outgoing } })

/-- Stops the loop: every connection is dropped. -/
def stop (r : Reactor) : Reactor :=
  { r with links := [] }

end Reactor

end KvServer
