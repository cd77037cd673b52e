import KvServer.Net.Ipv4

/-!
# The host's ports

Which local ports are already taken. Binding a taken port fails, whether the address names the
loopback interface (`localhost`, in any case, or a numeric form of `127.0.0.1`) or every
interface (a numeric form of `0.0.0.0`). Port 0 asks for any free port and never fails.
-/

namespace KvServer.Net

/-- The ports of the host that something already listens on. -/
structure Host where
  taken : List UInt16 := []
  deriving Inhabited

/-- The text of the operating system's error for a taken address. -/
def addressInUse : String := "Address already in use (os error 98)"

/-- Whether `host` names an address of this machine that a taken port blocks. -/
def isLocal (host : String) : Bool :=
  host.toList.map Char.toLower == "localhost".toList ||
    match Ipv4.parse? host with
    | some a => a == Ipv4.loopback || a == Ipv4.any
    | none => false

/-- Whether binding `host:port` fails because the port is taken. -/
def Host.bindFails (h : Host) (host : String) (port : UInt16) : Bool :=
  port != 0 && isLocal host && h.taken.contains port

end KvServer.Net
