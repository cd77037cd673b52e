import KvServer.Config.Server
import KvServer.Net.Host

/-!
# Starting the server

What the executable does with its command line before it serves: help and the version are
printed and it ends well; a command line it cannot read ends it with status 2; a configuration
it refuses, or an address it cannot bind, ends it with status 1 and a report of the error and
its cause; otherwise it binds and keeps serving.
-/

namespace KvServer

/-- How starting the server ends, or that it keeps serving. -/
inductive Exit where
  /-- Serving with this configuration. -/
  | serving (config : ServerConfig)
  /-- Help or the version was printed. -/
  | printed (stop : CliStop)
  /-- The command line could not be read. -/
  | usage (stop : CliStop)
  /-- A refused configuration or an address that cannot be bound: the error and its cause. -/
  | failed (error cause : String)
  deriving Inhabited

namespace Exit

/-- The exit status, none while serving. -/
def code? : Exit → Option Nat
  | .serving _ => none
  | .printed _ => some 0
  | .usage _ => some 2
  | .failed _ _ => some 1

/-- The report of a failure on the error stream. -/
def report : Exit → String
  | .failed error cause => "Error: " ++ error ++ "\n\nCaused by:\n    " ++ cause ++ "\n"
  | _ => ""

end Exit

/-- What starting the server with `args` does on a host whose ports are as given. -/
def launch (host : Net.Host) (args : List String) : Exit :=
  match CliArgs.parse args with
  | .error stop =>
    if stop = .displayHelp ∨ stop = .displayVersion then .printed stop else .usage stop
  | .ok a =>
    match ServerConfig.ofArgs a with
    | .error e => .failed "invalid command line" e.message
    | .ok config =>
      if host.bindFails config.host config.port then
        .failed ("failed to bind " ++ config.bindAddress ++ ": " ++ Net.addressInUse)
          Net.addressInUse
      else .serving config

end KvServer
