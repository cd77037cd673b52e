import Std.Data.HashMap
import KvServer.Clock
import KvServer.Number.Decimal

/-!
# The string store

Keys bound to texts, each with the instant it was written and an optional time to live. Nothing
sweeps expired entries: an entry whose time has run out is dropped when its key is next looked
at, and until then it still counts among the keys held. An entry expires at the first instant at
or after its creation plus its time to live; if that sum is past the clock's horizon it never
expires.
-/

namespace KvServer

/-- A stored text with the instant it was written and its time to live in nanoseconds. -/
structure Entry where
  value : String
  createdAt : Instant
  ttl : Option Nat
  deriving Inhabited

/-- Whether the entry's time has run out at `now`. -/
def Entry.expired (e : Entry) (now : Instant) : Bool :=
  match e.ttl with
  | none => false
  | some d =>
    match Clock.later? e.createdAt d with
    | some deadline => deadline ≤ now
    | none => false

/-- The string store. -/
structure Strings where
  entries : Std.HashMap String Entry := {}
  deriving Inhabited

namespace Strings

/-- Binds `key` to `value` from `now` on, replacing the value and the time to live. -/
def set (s : Strings) (now : Instant) (key value : String) (ttl : Option Nat) : Strings :=
  { entries := s.entries.insert key { value, createdAt := now, ttl } }

/-- The entry of `key` if it is still alive; an expired entry is dropped. -/
def touch (s : Strings) (now : Instant) (key : String) : Option Entry × Strings :=
  match s.entries[key]? with
  | none => (none, s)
  | some e => if e.expired now then (none, { entries := s.entries.erase key }) else (some e, s)

/-- The text bound to `key`, if it is alive. -/
def get (s : Strings) (now : Instant) (key : String) : Option String × Strings :=
  let (e, s) := s.touch now key
  (e.map (·.value), s)

/-- Adds one to the integer bound to `key` and answers the new value. An absent or expired key
starts from zero and gets no time to live; a present one keeps its creation instant and time to
live. `none` when the text is not a signed 64-bit integer or is already the largest one, and
then nothing changes. -/
def incr (s : Strings) (now : Instant) (key : String) : Option (Int × Strings) :=
  match s.touch now key with
  | (none, s) => some (1, s.set now key "1" none)
  | (some e, s) =>
    match Decimal.parseInt64? e.value with
    | some x =>
      if x < Decimal.int64Max then
        some (x + 1, { entries := s.entries.insert key { e with value := Decimal.ofInt (x + 1) } })
      else none
    | none => none

/-- The number of keys held, expired ones not yet dropped included. -/
def size (s : Strings) : Nat :=
  s.entries.size

end Strings

end KvServer
