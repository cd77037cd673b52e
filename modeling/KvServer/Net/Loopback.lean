import KvServer.Net.Host
import KvServer.Number.Decimal

/-!
# A loopback network that refuses connections

A script sets up servers, listeners that stand in for a master, and ports left closed, each
named, on one host whose network refuses every outgoing connection, loopback included: a connect
fails with "Network is unreachable". So no client ever reaches a server, a replica never reaches
its master, and a listener never accepts anyone.

Binding still works as on any host: a server takes a fresh port unless it asks for the port of
another endpoint, and then fails while that port is held. A stopped server frees its port.
-/

namespace KvServer.Net

/-- What a name of the script stands for. -/
inductive Endpoint where
  /-- A server, holding its port while it runs. -/
  | server (port : Nat) (running : Bool)
  /-- A listener standing in for a master. -/
  | listener (port : Nat)
  /-- A port bound once and released. -/
  | closedPort (port : Nat)
  deriving Inhabited

/-- The endpoint's port. -/
def Endpoint.port : Endpoint → Nat
  | .server p _ | .listener p | .closedPort p => p

/-- Whether the endpoint holds its port. -/
def Endpoint.holds : Endpoint → Bool
  | .server _ running => running
  | .listener _ => true
  | .closedPort _ => false

/-- A step of a script. -/
inductive ScriptStep where
  /-- Start a server, optionally as a replica of an endpoint, on another endpoint's port, or on
  a given host. -/
  | start (name : String) (replicaof portOf : Option String) (host : Option String)
  | stop (name : String)
  | listen (name : String)
  | closePort (name : String)
  /-- Wait for a connection on a listener; the connection becomes a client. -/
  | accept (name : String) (client : String)
  /-- Connect a client to a server. -/
  | connect (client server : String)
  /-- Any exchange through a client: send, read, wait, half-close or close. -/
  | useClient (client : String)
  | sleep
  deriving Inhabited

/-- What a step did. -/
inductive ScriptReply where
  | started
  | bindFailed (message : String)
  | stopped
  | done
  | accepted (yes : Bool)
  deriving Inhabited

/-- Why a script stops. -/
inductive ScriptAbort where
  /-- A connect failed: the network refuses it. -/
  | unreachable
  /-- A step names something the script has not set up. -/
  | unknown (what : String)
  deriving Inhabited

/-- The text of the operating system's error for a refused network. -/
def ScriptAbort.message : ScriptAbort → String
  | .unreachable => "Network is unreachable (os error 101)"
  | .unknown what => what

/-- The state of a script's host. -/
structure Bench where
  endpoints : List (String × Endpoint) := []
  clients : List String := []
  nextPort : Nat := 32768
  deriving Inhabited

namespace Bench

/-- Names `e` by `name`, replacing what the name stood for in its place; a new name comes after
every name given before it. -/
def setEndpoint (b : Bench) (name : String) (e : Endpoint) : Bench :=
  if b.endpoints.any (·.1 == name) then
    { b with endpoints := b.endpoints.map fun (n, old) => if n == name then (n, e) else (n, old) }
  else { b with endpoints := b.endpoints ++ [(name, e)] }

/-- Names `name` for a fresh port. -/
def bind (b : Bench) (name : String) (make : Nat → Endpoint) : Bench :=
  { b.setEndpoint name (make b.nextPort) with nextPort := b.nextPort + 1 }

/-- The endpoint named `name`. -/
def find? (b : Bench) (name : String) : Option Endpoint :=
  b.endpoints.lookup name

/-- Runs one step. -/
def step (b : Bench) : ScriptStep → Except ScriptAbort (ScriptReply × Bench)
  | .start name replicaof portOf host => do
    if let some m := replicaof then
      if (b.find? m).isNone then throw (.unknown ("unknown endpoint " ++ m))
    match portOf with
    | none => return (.started, b.bind name fun p => .server p true)
    | some other =>
      let some e := b.find? other | throw (.unknown ("unknown endpoint " ++ other))
      let hostName := host.getD "127.0.0.1"
      if e.holds && isLocal hostName then
        return (.bindFailed ("failed to bind " ++ hostName ++ ":" ++ Decimal.ofNat e.port ++
          ": " ++ addressInUse), b)
      else
        return (.started, b.setEndpoint name (.server e.port true))
  | .stop name =>
    match b.find? name with
    | some (.server p _) =>
      return (.stopped, b.setEndpoint name (.server p false))
    | _ => throw (.unknown ("unknown server " ++ name))
  | .listen name => return (.done, b.bind name .listener)
  | .closePort name => return (.done, b.bind name .closedPort)
  | .accept name _ =>
    match b.find? name with
    | some (.listener _) => return (.accepted false, b)
    | _ => throw (.unknown ("unknown fake master " ++ name))
  | .connect _ _ => throw .unreachable
  | .useClient client =>
    if client ∈ b.clients then return (.done, b) else throw (.unknown ("unknown client " ++ client))
  | .sleep => return (.done, b)

/-- Runs a script: every step's reply, or why it stopped. -/
def run (b : Bench) : List ScriptStep → Except ScriptAbort (List ScriptReply × Bench)
  | [] => return ([], b)
  | s :: rest => do
    let (r, b) ← b.step s
    let (rs, b) ← run b rest
    return (r :: rs, b)

/-- Every whole run of digits that is an endpoint's port, replaced by `<name>`. -/
def mask (b : Bench) (s : String) : String :=
  let named (digits : List Char) : List Char :=
    match b.endpoints.find? fun (_, e) => Decimal.digits e.port == digits with
    | some (n, _) => ('<' :: n.toList) ++ ['>']
    | none => digits
  let rec go (run : List Char) : List Char → List Char
    | [] => named run.reverse
    | c :: cs => if c.isDigit then go (c :: run) cs else named run.reverse ++ c :: go [] cs
  String.ofList (go [] s.toList)

end Bench

end KvServer.Net
