import KvServer.Config.Address
import KvServer.ConnId
import KvServer.Wire.Value

/-!
# Replication bookkeeping

A master records every write as a request array, in order, and its offset grows by the encoded
size of each; the events wait until they are sent to the attached replicas. A replica records
nothing. The server also tracks whether its link to the master is down, whether a reconnect is
pending and whether the handshake has completed, and reports all of it as INFO text.
-/

namespace KvServer

/-- The replication id every master reports. -/
def replicationId : String := "8371b4fb1155b71f4a04d3e1bc3e18c4a990aeeb"

/-- A server is a master, or a replica of the master at some address. -/
inductive Role where
  | master
  | replica (master : MasterAddress)
  deriving DecidableEq, Inhabited

/-- The role's name in INFO text. -/
def Role.name : Role → String
  | .master => "master"
  | .replica _ => "slave"

/-- The replication state of a server. -/
structure Replication where
  role : Role
  offset : Nat := 0
  replicas : List ConnId := []
  events : List Value := []
  masterDown : Bool := false
  retryPending : Bool := false
  masterLinkUp : Bool := false
  deriving Inhabited

namespace Replication

/-- A fresh state; a replica starts with its master link down. -/
def new (role : Role) : Replication :=
  { role, masterDown := role != .master }

/-- Whether the server is a master. -/
def isMaster (r : Replication) : Bool :=
  r.role == .master

/-- Attaches a replica connection, once. -/
def addReplica (r : Replication) (c : ConnId) : Replication :=
  if c ∈ r.replicas then r else { r with replicas := r.replicas ++ [c] }

/-- Detaches a replica connection, answering whether it was attached. -/
def removeReplica (r : Replication) (c : ConnId) : Bool × Replication :=
  (c ∈ r.replicas, { r with replicas := r.replicas.filter (· ≠ c) })

/-- Records a write, on a master only. -/
def record (r : Replication) (event : Value) : Replication :=
  if r.isMaster then
    { r with offset := r.offset + event.encode.length, events := r.events ++ [event] }
  else r

/-- Takes the recorded events that have not been sent yet. -/
def drain (r : Replication) : List Value × Replication :=
  (r.events, { r with events := [] })

/-- Whether a replica must start reconnecting to its master. -/
def needsReconnect (r : Replication) : Bool :=
  !r.isMaster && r.masterDown && !r.retryPending

/-- Notes that the link to the master is lost. -/
def markMasterDown (r : Replication) : Replication :=
  { r with masterDown := true, masterLinkUp := false }

/-- The replication section of INFO, lines joined by a carriage return and a line feed. -/
def info (r : Replication) : String :=
  let roleLines := match r.role with
    | .master => ["connected_slaves:" ++ Decimal.ofNat r.replicas.length]
    | .replica m =>
      ["master_host:" ++ m.host, "master_port:" ++ Decimal.ofNat m.port.toNat,
        "master_link_status:" ++ if r.masterLinkUp then "up" else "down"]
  let lines := ["role:" ++ r.role.name] ++ roleLines ++
    ["master_replid:" ++ replicationId, "master_repl_offset:" ++ Decimal.ofNat r.offset]
  "\r\n".intercalate lines

end Replication

end KvServer
