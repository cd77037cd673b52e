import KvServer.Launch
import KvServer.Reactor

/-!
# The executable

The command line is read as `launch` says. Help and the version are printed on standard output
and the program ends well; a command line it cannot read is reported on the error stream with
status 2; a refused configuration with its report and status 1. Otherwise the server takes
standard input and standard output as one client's connection: every byte read is handed to
the event loop, every reply written back, and a blocked pop waits for its timeout. The program
ends when the input ends and the connection has closed.
-/

namespace KvServer

/-- The help text. -/
def helpText : String :=
  "Single-threaded Redis-compatible server\n\n" ++
  "Usage: reactor-redis [OPTIONS]\n\n" ++
  "Options:\n" ++
  "      --host <HOST>            Host to bind to [default: localhost]\n" ++
  "  -p, --port <PORT>            Port to listen on. Use 0 for an ephemeral port [default: 6379]\n" ++
  "      --replicaof <REPLICAOF>  Run as a replica of the given master, written as \"<host> <port>\"\n" ++
  "  -h, --help                   Print help\n" ++
  "  -V, --version                Print version\n"

/-- The version line. -/
def versionText : String :=
  "reactor-redis 0.1.0\n"

/-- What a command line that cannot be read is reported as. -/
def CliStop.message : CliStop → String
  | .unknownArgument => "error: unexpected argument found"
  | .invalidValue => "error: a value is required for an option but none was supplied"
  | .valueValidation => "error: invalid value for '--port <PORT>'"
  | .argumentConflict => "error: an argument cannot be used multiple times"
  | .tooManyValues => "error: unexpected value for a flag that takes none"
  | .displayHelp => helpText
  | .displayVersion => versionText

/-- The connection standard input and output stand for. -/
def consoleId : ConnId := 1

/-- The server's clock: nanoseconds since the program started. -/
def elapsed (start : Nat) : IO Instant := do
  return (← IO.monoNanosNow) - start

/-- Writes what the loop has for the console. -/
def flushConsole (out : IO.FS.Stream) (r : Reactor) : IO Reactor := do
  let (bs, r) := r.collect consoleId
  if !bs.isEmpty then
    out.write ⟨bs.toArray⟩
    out.flush
  return r

/-- Runs turns until the console has nothing left to write and no pop of it waits for a
timeout. -/
partial def settle (out : IO.FS.Stream) (start : Nat) (r : Reactor) : IO Reactor := do
  let r ← flushConsole out r
  let pending := (r.link? consoleId).any (·.conn.wantWrite)
  let waiting := (r.link? consoleId).any (·.conn.suspended)
  if pending then
    settle out start (r.turn (← elapsed start) [.writable consoleId])
  else if waiting then
    match r.server.timers.nextDeadline with
    | none => return r
    | some d =>
      let now ← elapsed start
      if now < d then IO.sleep ((d - now) / Clock.nanosPerMilli + 1).toUInt32
      settle out start (r.turn (← elapsed start) [])
  else return r

/-- Serves the console until its input ends. -/
partial def serveConsole (input out : IO.FS.Stream) (start : Nat) (r : Reactor) : IO Unit := do
  let chunk ← input.read 4096
  let now ← elapsed start
  if chunk.isEmpty then
    let _ ← settle out start ((r.hangUp consoleId).turn now [.readable consoleId])
  else
    let r ← settle out start ((r.receive consoleId chunk.data.toList).turn now [.readable consoleId])
    if (r.link? consoleId).isSome then serveConsole input out start r

end KvServer

/-- Starts the server as the command line asks. -/
def main (args : List String) : IO UInt32 := do
  match KvServer.launch {} args with
  | .serving config =>
    let role := match config.replicaof with
      | some m => KvServer.Role.replica m
      | none => .master
    let start ← IO.monoNanosNow
    let r := (KvServer.Reactor.new (KvServer.Server.new role config.port)).turn 0 [.accepted "console"]
    KvServer.serveConsole (← IO.getStdin) (← IO.getStdout) start r
    return 0
  | .printed stop =>
    IO.print stop.message
    return 0
  | .usage stop =>
    IO.eprintln stop.message
    return 2
  | e@(.failed _ _) =>
    IO.eprint e.report
    return 1
