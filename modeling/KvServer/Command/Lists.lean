import KvServer.Server.State
import KvServer.Command.Basic
import KvServer.Number.Binary64

/-!
# List commands

RPUSH and LPUSH add items and then serve the blocked pops of the key; LRANGE and LLEN read;
LPOP removes from the front, one item or a count of them; BLPOP removes the first item or, when
there is none, parks the connection until a push or its timeout answers it. Pushes are recorded
as sent, LPOP only when it removed something, and a BLPOP that finds data as `LPOP key`.

A BLPOP timeout is a number of seconds read as a binary64 number: not negative, finite and below
2^64 seconds; zero of either sign means waiting without a deadline. During EXEC nothing may wait,
so a BLPOP that finds no data answers null.
-/

namespace KvServer

/-- LPOP's arguments: the key and the optional count. -/
def parseLPop : List String → Except CommandError (String × Option Nat)
  | [key] => .ok (key, none)
  | [key, count] =>
    match Decimal.parseInt64? count with
    | none => .error .notAnInteger
    | some n => if n < 0 then .error .negativeCount else .ok (key, some n.toNat)
  | _ => .error (.wrongArity (.action .lpop))

/-- LRANGE's arguments: the key and the two inclusive indexes. -/
def parseLRange : List String → Except CommandError (String × Int × Int)
  | [key, start, stop] =>
    match Decimal.parseInt64? start, Decimal.parseInt64? stop with
    | some a, some b => .ok (key, a, b)
    | _, _ => .error .notAnInteger
  | _ => .error (.wrongArity (.action .lrange))

/-- BLPOP's arguments: the key and the timeout in nanoseconds, none for no deadline. -/
def parseBLPop : List String → Except CommandError (String × Option Nat)
  | [key, timeout] =>
    match Binary64.parse? timeout with
    | none => .error .invalidTimeout
    | some x =>
      match Clock.nanosOfSeconds? x with
      | none => .error .invalidTimeout
      | some ns => .ok (key, if x.isZero then none else some ns)
  | _ => .error (.wrongArity (.action .blpop))

namespace Server

/-- RPUSH and LPUSH: adds the items, records the write, then serves the key's blocked pops. -/
def push (front : Bool) (s : Server) (now : Instant) (q : Request) :
    Except CommandError (Outcome × Server) :=
  match q.args with
  | key :: items@(_ :: _) =>
    let (len, lists) := if front then s.lists.lpush key items else s.lists.rpush key items
    let s := { s with lists }.record q.toValue
    .ok (.completed (.integer (Int64.ofNat len)), s.wake now key)
  | _ => .error (.wrongArity (.action (if front then .lpush else .rpush)))

/-- LRANGE: the items between the two indexes. -/
def lrange (s : Server) (_now : Instant) (q : Request) : Except CommandError (Outcome × Server) := do
  let (key, start, stop) ← parseLRange q.args
  return (.completed (Value.command (s.lists.lrange key start stop)), s)

/-- LLEN: the length of the key's list. -/
def llen (s : Server) (_now : Instant) (q : Request) : Except CommandError (Outcome × Server) :=
  match q.args with
  | [key] => .ok (.completed (.integer (Int64.ofNat (s.lists.llen key))), s)
  | _ => .error (.wrongArity (.action .llen))

/-- LPOP: the first item or null; with a count, an array of up to that many items. -/
def lpop (s : Server) (_now : Instant) (q : Request) : Except CommandError (Outcome × Server) := do
  let (key, count) ← parseLPop q.args
  let (reply, popped, lists) := match count with
    | none =>
      match s.lists.lpop key with
      | (some v, lists) => (Value.bulk v, true, lists)
      | (none, lists) => (Value.null, false, lists)
    | some n =>
      let (vs, lists) := s.lists.popFront key n
      (Value.command vs, !vs.isEmpty, lists)
  let s := { s with lists }
  return (.completed reply, if popped then s.record q.toValue else s)

/-- BLPOP: the first item with its key, or a wait for one. -/
def blpop (s : Server) (now : Instant) (q : Request) : Except CommandError (Outcome × Server) := do
  let (key, timeout) ← parseBLPop q.args
  match s.lists.lpop key with
  | (some v, lists) =>
    return (.completed (Value.command [key, v]),
      { s with lists }.record (Value.command ["LPOP", key]))
  | (none, _) =>
    if s.replaying then return (.completed .null, s)
    else return (.suspended, s.block now key q.origin timeout)

end Server

end KvServer
