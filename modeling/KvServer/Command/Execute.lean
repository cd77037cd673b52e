import KvServer.Command.Strings
import KvServer.Command.Lists
import KvServer.Command.Replication

/-!
# Running requests

A request frame is read as a command, checked against its verb's least element count, and then
either queued, when its sender is inside a transaction and it is an action, or run. A refused
command is answered with its error and leaves the server as it was. EXEC runs the queued actions
in order, each reply (errors included) in one array, and no action may wait meanwhile.
-/

namespace KvServer

namespace Server

/-- PING: `PONG`, or the argument back. -/
def ping (s : Server) (_now : Instant) (q : Request) : Except CommandError (Outcome × Server) :=
  match q.args with
  | [] => .ok (.completed (.simple "PONG"), s)
  | [m] => .ok (.completed (.bulk m), s)
  | _ => .error (.wrongArity (.action .ping))

/-- ECHO: the argument back. -/
def echo (s : Server) (_now : Instant) (q : Request) : Except CommandError (Outcome × Server) :=
  match q.args with
  | [m] => .ok (.completed (.bulk m), s)
  | _ => .error (.wrongArity (.action .echo))

/-- Runs an action, without the error reply. -/
def act (s : Server) (now : Instant) (q : Request) : Except CommandError (Outcome × Server) :=
  match q.action with
  | .ping => s.ping now q
  | .echo => s.echo now q
  | .set => s.set now q
  | .get => s.get now q
  | .incr => s.incr now q
  | .rpush => s.push false now q
  | .lpush => s.push true now q
  | .lrange => s.lrange now q
  | .llen => s.llen now q
  | .lpop => s.lpop now q
  | .blpop => s.blpop now q
  | .info => s.info now q
  | .replconf => s.replconf now q
  | .psync => s.psync now q

/-- Runs an action; a refused one is answered with its error and changes nothing. -/
def perform (s : Server) (now : Instant) (q : Request) : Outcome × Server :=
  match s.act now q with
  | .ok r => r
  | .error e => (.completed e.reply, s)

/-- Runs queued actions in order, a suspension counting as null. -/
def replay (now : Instant) : List Request → Server → List Value × Server
  | [], s => ([], s)
  | q :: qs, s =>
    let (o, s) := s.perform now q
    let reply := match o with
      | .completed v => v
      | .suspended => .null
    let (vs, s) := replay now qs s
    (reply :: vs, s)

/-- MULTI, EXEC or DISCARD. -/
def control (s : Server) (now : Instant) (origin : ConnId) (args : List String) :
    Verb → Except CommandError (Outcome × Server)
  | .multi =>
    if args.isEmpty then .ok (.completed .ok, { s with transactions := s.transactions.multi origin })
    else .error (.wrongArity .multi)
  | .exec =>
    if !args.isEmpty then .error (.wrongArity .exec)
    else match s.transactions.exec? origin with
      | none => .error .execWithoutMulti
      | some (queued, transactions) =>
        let (replies, s) := replay now queued { s with transactions, replaying := true }
        .ok (.completed (.array replies), { s with replaying := false })
  | .discard =>
    if !args.isEmpty then .error (.wrongArity .discard)
    else match s.transactions.discard? origin with
      | none => .error .discardWithoutMulti
      | some transactions => .ok (.completed .ok, { s with transactions })
  | .action a => s.act now { origin, action := a, args }

/-- Runs a command that is not queued. -/
def run (s : Server) (now : Instant) (c : Command) : Outcome × Server :=
  match s.control now c.origin c.args c.verb with
  | .ok r => r
  | .error e => (.completed e.reply, s)

/-- Answers a request frame from connection `origin` at `now`. -/
def execute (s : Server) (now : Instant) (origin : ConnId) (frame : Value) : Outcome × Server :=
  match Command.ofFrame origin frame with
  | .error e => (.completed e.reply, s)
  | .ok c =>
    if !c.hasArity then (.completed (CommandError.wrongArity c.verb).reply, s)
    else match s.transactions.enqueue? c with
      | some transactions => (.completed (.simple "QUEUED"), { s with transactions })
      | none => s.run now c

end Server

end KvServer
