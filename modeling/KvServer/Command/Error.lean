import KvServer.Command.Verb
import KvServer.Wire.Value

/-!
# Command errors

Why a request is refused. Each cause has one message, and a refused request is answered with
the error value `ERR` followed by that message.
-/

namespace KvServer

/-- Why a request is refused. -/
inductive CommandError where
  /-- Not an array of texts, or an empty one. -/
  | invalidCommand
  /-- The first element names no verb; the name is kept as sent. -/
  | unknownCommand (name : String)
  /-- Too few or too many arguments for the verb. -/
  | wrongArity (verb : Verb)
  /-- Arguments in a form the verb does not take. -/
  | syntaxError
  /-- A zero expiry for SET. -/
  | invalidExpiry
  /-- An argument or a stored value that is not a 64-bit integer, or an increment past the range. -/
  | notAnInteger
  /-- A negative count for LPOP. -/
  | negativeCount
  /-- A BLPOP timeout that is not a float of seconds in range. -/
  | invalidTimeout
  /-- A PSYNC offset that is not a 64-bit integer. -/
  | invalidOffset
  /-- EXEC outside a transaction. -/
  | execWithoutMulti
  /-- DISCARD outside a transaction. -/
  | discardWithoutMulti
  deriving DecidableEq, Inhabited

namespace CommandError

/-- The text that reports the error. -/
def message : CommandError → String
  | .invalidCommand => "Invalid command"
  | .unknownCommand s => "unknown command '" ++ s ++ "'"
  | .wrongArity v => "wrong number of arguments for '" ++ v.name ++ "' command"
  | .syntaxError => "syntax error"
  | .invalidExpiry => "invalid expire time in 'set' command"
  | .notAnInteger => "value is not an integer or out of range"
  | .negativeCount => "value is out of range, must be positive"
  | .invalidTimeout => "timeout is not a float or out of range"
  | .invalidOffset => "Invalid PSYNC offset"
  | .execWithoutMulti => "EXEC without MULTI"
  | .discardWithoutMulti => "DISCARD without MULTI"

/-- The error value a refused request is answered with. -/
def reply (e : CommandError) : Value :=
  .error ("ERR " ++ e.message)

end CommandError

end KvServer
