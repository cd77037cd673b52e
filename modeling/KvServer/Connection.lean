import KvServer.Command.Execute
import KvServer.Replica.Handshake
import KvServer.Net.Pipe
import KvServer.Wire.Decode

/-!
# Connections

One socket of the server. Bytes read from the socket are kept in an inbound buffer; every
complete frame in it is taken in order and answered, the replies going to an outbound buffer
that is written to the socket as far as the socket accepts. A request that must wait suspends
the connection: the frames behind it stay buffered until the deferred reply is resumed, and are
then answered after it.

A client connection answers every request. The link a replica keeps to its master first runs
the handshake, one reply per request, and after it applies the master's stream of writes
without answering anything.

When the peer has shut its side, a connection with nothing buffered, or one that waits for a
deferred reply, is closed quietly; one with part of a frame buffered reports it.
-/

namespace KvServer

/-- Why a connection must close. -/
inductive ConnectionError where
  /-- The peer closed its side. -/
  | closed
  /-- The peer closed its side in the middle of a frame; the bytes buffered. -/
  | unexpectedEof (buffered : Nat)
  /-- The peer sent bytes that are no frame. -/
  | protocol (e : WireError)
  /-- The master failed the handshake. -/
  | handshake (e : HandshakeError)
  /-- The socket failed. -/
  | io
  deriving Inhabited

/-- The text that reports why a connection closes. -/
def ConnectionError.message : ConnectionError → String
  | .closed => "connection closed by peer"
  | .unexpectedEof n =>
    "connection closed in the middle of a frame (" ++ Decimal.ofNat n ++ " bytes buffered)"
  | .protocol e => "protocol error: " ++ e.message
  | .handshake e => "replication handshake failed: " ++ e.message
  | .io => "socket error: Broken pipe (os error 32)"

/-- What a connection is for. -/
inductive ConnectionRole where
  /-- A client's connection: every request is answered. -/
  | client
  /-- The replica's link to its master, with its handshake. -/
  | replicaLink (h : Handshake)
  deriving Inhabited

/-- A connection of the server. -/
structure Connection where
  id : ConnId
  /-- The peer's address. -/
  peer : String
  inbound : Buffer := {}
  outbound : Buffer := {}
  role : ConnectionRole := .client
  /-- Waiting for a deferred reply. -/
  suspended : Bool := false
  /-- The peer has shut its side. -/
  eof : Bool := false
  /-- Marked to be closed. -/
  wantClose : Bool := false
  deriving Inhabited

namespace Connection

/-- A client connection. -/
def new (id : ConnId) (peer : String) : Connection :=
  { id, peer }

/-- Queues a value for the peer. -/
def send (c : Connection) (v : Value) : Connection :=
  { c with outbound := c.outbound.append v.encode }

/-- A link to the master, with the handshake's first request already queued. -/
def replicaLink (id : ConnId) (peer : String) (port : UInt16) : Connection :=
  let (ping, h) := (Handshake.new port).start
  ({ id, peer, role := .replicaLink h } : Connection).send ping

/-- Whether this is a link to the master. -/
def isReplicaLink (c : Connection) : Bool :=
  match c.role with
  | .replicaLink _ => true
  | .client => false

/-- Whether the connection wants to read. -/
def wantRead (c : Connection) : Bool :=
  !c.eof && !c.wantClose

/-- Whether the connection has bytes to write. -/
def wantWrite (c : Connection) : Bool :=
  !c.outbound.isEmpty && !c.wantClose

/-- Reads every byte waiting on the socket, noting the end of the stream: how many were read. -/
def read (c : Connection) (incoming : Net.Pipe) : Nat × Connection × Net.Pipe :=
  let (bs, incoming) := incoming.take
  (bs.length, { c with inbound := c.inbound.append bs, eof := c.eof || incoming.writerClosed },
    incoming)

/-- Checks the end of the stream: nothing buffered or a deferred reply awaited closes quietly,
part of a frame is reported. -/
def checkEof (c : Connection) : Except ConnectionError Unit :=
  if !c.eof then .ok ()
  else if c.inbound.isEmpty || c.suspended then .error .closed
  else .error (.unexpectedEof c.inbound.len)

/-- Does what one frame asks: a client's request is answered or suspends; the master's replies
drive the handshake, and after it its writes are applied unanswered. A reply the handshake
refuses is reported, and the handshake has then started over, so the connection is returned
either way. -/
def handle (c : Connection) (s : Server) (now : Instant) (frame : Value) :
    Option ConnectionError × Connection × Server :=
  match c.role with
  | .client =>
    match s.execute now c.id frame with
    | (.completed reply, s) => (none, c.send reply, s)
    | (.suspended, s) => (none, { c with suspended := true }, s)
  | .replicaLink h =>
    if h.isDone then (none, c, (s.execute now c.id frame).2)
    else
      match h.onReply frame with
      | (.error e, h) => (some (.handshake e), { c with role := .replicaLink h }, s)
      | (.ok (some request), h) => (none, { c with role := .replicaLink h }.send request, s)
      | (.ok none, h) =>
        (none, { c with role := .replicaLink h },
          { s with replication := { s.replication with masterLinkUp := true } })

/-- Takes the complete frames of the inbound buffer in order until one suspends; each round
commits at least one byte, so `fuel` beyond the buffer's length is never needed. -/
def processWith (now : Instant) : Nat → Connection → Server →
    Option ConnectionError × Connection × Server
  | 0, c, s => (none, c, s)
  | fuel + 1, c, s =>
    if c.suspended then (none, c, s)
    else
      match c.inbound.mark.decode with
      | (.error e, inbound) => (some (.protocol e), { c with inbound }, s)
      | (.ok .incomplete, inbound) => (none, { c with inbound := inbound.reset }, s)
      | (.ok (.frame v), inbound) =>
        let c := { c with inbound := inbound.commit }
        match c.handle s now v with
        | (none, c, s) => processWith now fuel c s
        | (some e, c, s) => (some e, c, s)

/-- Answers every complete buffered frame, stopping at a suspension or an error. -/
def processInbound (c : Connection) (s : Server) (now : Instant) :
    Option ConnectionError × Connection × Server :=
  processWith now (c.inbound.len + 1) c s

/-- Hands a deferred reply to a suspended connection and goes on with its buffered frames. -/
def resume (c : Connection) (reply : Value) (s : Server) (now : Instant) :
    Option ConnectionError × Connection × Server :=
  ({ c.send reply with suspended := false }).processInbound s now

/-- Writes as much of the outbound buffer as the socket takes. -/
def flush (c : Connection) (outgoing : Net.Pipe) : Except ConnectionError (Connection × Net.Pipe) :=
  if c.outbound.isEmpty then .ok (c, outgoing)
  else
    match outgoing.write c.outbound.bytes with
    | none => .error .io
    | some (n, outgoing) => .ok ({ c with outbound := c.outbound.consume n }, outgoing)

/-- The socket of a connection: what the peer sends, and what it is sent. -/
structure Socket where
  incoming : Net.Pipe := {}
  outgoing : Net.Pipe := {}
  deriving Inhabited

/-- What happens when the socket is readable: read, answer, write, and check for the end. -/
def onReadable (c : Connection) (sock : Socket) (s : Server) (now : Instant) :
    Option ConnectionError × Connection × Socket × Server :=
  let (_, c, incoming) := c.read sock.incoming
  let sock := { sock with incoming }
  match c.processInbound s now with
  | (some e, c, s) => (some e, c, sock, s)
  | (none, c, s) =>
    match c.flush sock.outgoing with
    | .error e => (some e, c, sock, s)
    | .ok (c, outgoing) =>
      let sock := { sock with outgoing }
      match c.checkEof with
      | .error e => (some e, c, sock, s)
      | .ok () => (none, c, sock, s)

/-- What handing a deferred reply to its connection came to. -/
inductive Handoff where
  /-- The connection is marked to close, or is the link to the master: nothing is done. -/
  | skipped
  /-- Resumed or sent; the error, if resuming failed. -/
  | handed (error : Option ConnectionError)
  deriving Inhabited

/-- Hands a deferred reply to its connection: a suspended connection the reply completes is
resumed, any other is just sent the reply. -/
def handOver (c : Connection) (d : Delivery) (s : Server) (now : Instant) :
    Handoff × Connection × Server :=
  if c.wantClose || c.isReplicaLink then (.skipped, c, s)
  else if d.resumes && c.suspended then
    let (e, c, s) := c.resume d.reply s now
    (.handed e, c, s)
  else (.handed none, c.send d.reply, s)

end Connection

end KvServer
