import KvServer.Number.Decimal
import KvServer.Text.Blank
import KvServer.Text.Quoted

/-!
# Master addresses

A replica is told its master as one value holding a host and a port, separated by blanks. The
value must split into exactly two words; the port is a 16-bit number other than zero.
-/

namespace KvServer

/-- Why a configuration is refused. -/
inductive ConfigError where
  /-- The master value is not two words. -/
  | invalidReplicaOf (value : String)
  /-- The master port is not a nonzero 16-bit number. -/
  | invalidMasterPort (port : String)
  deriving DecidableEq, Inhabited

/-- The text that reports a configuration error. -/
def ConfigError.message : ConfigError → String
  | .invalidReplicaOf v =>
    "invalid --replicaof value " ++ Text.quote v ++ ", expected \"<host> <port>\""
  | .invalidMasterPort p => "invalid master port " ++ Text.quote p

/-- Where a replica finds its master. -/
structure MasterAddress where
  host : String
  port : UInt16
  deriving DecidableEq, Inhabited

namespace MasterAddress

/-- Reads `"<host> <port>"`. -/
def parse (value : String) : Except ConfigError MasterAddress :=
  match Text.words value.toList with
  | [host, port] =>
    let portText := String.ofList port
    match Decimal.parseUInt16? portText with
    | some p => if p = 0 then .error (.invalidMasterPort portText)
      else .ok { host := String.ofList host, port := p.toUInt16 }
    | none => .error (.invalidMasterPort portText)
  | _ => .error (.invalidReplicaOf value)

/-- `host:port`. -/
def address (m : MasterAddress) : String :=
  m.host ++ ":" ++ Decimal.ofNat m.port.toNat

end MasterAddress

end KvServer
