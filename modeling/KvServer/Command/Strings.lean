import KvServer.Server.State
import KvServer.Command.Basic

/-!
# SET, GET and INCR

SET binds a key, with an optional `PX` time to live in milliseconds (the option's case does not
matter, and zero is refused); GET reads a key; INCR adds one to the integer a key holds, starting
from zero. SET always, and INCR when it succeeds, are recorded for the replicas as sent. Every
argument is checked before anything changes, so a refused command changes nothing.
-/

namespace KvServer

/-- Whether two texts are equal ignoring the case of ASCII letters. -/
def sameIgnoringCase (a b : String) : Bool :=
  a.toList.map Char.toLower == b.toList.map Char.toLower

/-- SET's arguments: the key, the value and the time to live in nanoseconds. -/
def parseSet : List String → Except CommandError (String × String × Option Nat)
  | [key, value] => .ok (key, value, none)
  | [key, value, option, ms] =>
    if !sameIgnoringCase option "px" then .error .syntaxError
    else match Decimal.parseUInt64? ms with
      | none => .error .notAnInteger
      | some 0 => .error .invalidExpiry
      | some n => .ok (key, value, some (n * Clock.nanosPerMilli))
  | [] | [_] => .error (.wrongArity (.action .set))
  | _ => .error .syntaxError

namespace Server

/-- SET: binds the key and records the write. -/
def set (s : Server) (now : Instant) (q : Request) : Except CommandError (Outcome × Server) := do
  let (key, value, ttl) ← parseSet q.args
  let s := { s with strings := s.strings.set now key value ttl }
  return (.completed .ok, s.record q.toValue)

/-- GET: the key's text, or null; an expired entry is dropped on the way. -/
def get (s : Server) (now : Instant) (q : Request) : Except CommandError (Outcome × Server) :=
  match q.args with
  | [key] =>
    let (v, strings) := s.strings.get now key
    .ok (.completed ((v.map .bulk).getD .null), { s with strings })
  | _ => .error (.wrongArity (.action .get))

/-- INCR: adds one and records the write, or refuses a value that is no integer in range. -/
def incr (s : Server) (now : Instant) (q : Request) : Except CommandError (Outcome × Server) :=
  match q.args with
  | [key] =>
    match s.strings.incr now key with
    | some (n, strings) =>
      .ok (.completed (.integer (Int64.ofInt n)), { s with strings }.record q.toValue)
    | none => .error .notAnInteger
  | _ => .error (.wrongArity (.action .incr))

end Server

end KvServer
