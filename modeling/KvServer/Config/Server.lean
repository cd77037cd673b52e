import KvServer.Config.Address
import KvServer.Config.Cli

/-!
# Server configuration

Where the server listens and, for a replica, where its master is. The host defaults to
`localhost` and the port to 6379; a master value must read as a master address.
-/

namespace KvServer

/-- A server's configuration. -/
structure ServerConfig where
  host : String := "localhost"
  port : UInt16 := 6379
  replicaof : Option MasterAddress := none
  deriving Inhabited

namespace ServerConfig

/-- The default configuration: a master on `localhost:6379`. -/
def default : ServerConfig := {}

/-- `host:port`, the address the server binds. -/
def bindAddress (c : ServerConfig) : String :=
  c.host ++ ":" ++ Decimal.ofNat c.port.toNat

/-- The configuration a command line asks for. -/
def ofArgs (a : CliArgs) : Except ConfigError ServerConfig := do
  let replicaof ← match a.replicaof with
    | some v => (MasterAddress.parse v).map some
    | none => pure none
  return { host := a.host.getD "localhost", port := a.port.getD 6379, replicaof }

end ServerConfig

end KvServer
