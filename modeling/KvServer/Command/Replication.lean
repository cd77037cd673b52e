import KvServer.Server.State
import KvServer.Command.Basic

/-!
# INFO, REPLCONF and PSYNC

INFO reports the replication section whatever it is asked. REPLCONF takes an option and at least
one value and always agrees. PSYNC takes a replication id and an offset, answers with a full
resynchronisation at the current offset, and attaches the sender as a replica: from then on it
is sent every recorded write.
-/

namespace KvServer

namespace Server

/-- INFO: the replication section. -/
def info (s : Server) (_now : Instant) (_q : Request) : Except CommandError (Outcome × Server) :=
  .ok (.completed (.bulk s.replication.info), s)

/-- REPLCONF: agrees to any option with values. -/
def replconf (s : Server) (_now : Instant) (q : Request) : Except CommandError (Outcome × Server) :=
  match q.args with
  | _ :: _ :: _ => .ok (.completed .ok, s)
  | _ => .error (.wrongArity (.action .replconf))

/-- PSYNC: a full resynchronisation at the current offset; the sender becomes a replica. -/
def psync (s : Server) (_now : Instant) (q : Request) : Except CommandError (Outcome × Server) :=
  match q.args with
  | [_, offset] =>
    match Decimal.parseInt64? offset with
    | none => .error .invalidOffset
    | some _ =>
      let reply := Value.simple
        ("FULLRESYNC " ++ replicationId ++ " " ++ Decimal.ofNat s.replication.offset)
      .ok (.completed reply, { s with replication := s.replication.addReplica q.origin })
  | _ => .error (.wrongArity (.action .psync))

end Server

end KvServer
