import KvServer.Number.Binary64

/-!
# Time

An instant is a number of nanoseconds since the clock started, and a duration is a number of
nanoseconds. The clock counts whole seconds in a signed 64-bit word, so the first instant it
cannot represent is 2^63 seconds after its start: a deadline past that is no deadline.

A duration given in seconds as a binary64 number is accepted when it is not negative, not a
number or infinite, and below 2^64 seconds; it is the exact value rounded to the nearest
nanosecond, a tie going to the even count.
-/

namespace KvServer

/-- An instant, in nanoseconds since the clock started. -/
abbrev Instant := Nat

namespace Clock

/-- Nanoseconds in a millisecond. -/
def nanosPerMilli : Nat := 1000000

/-- Nanoseconds in a second. -/
def nanosPerSecond : Nat := 1000000000

/-- The first instant the clock cannot represent. -/
def horizon : Nat := 9223372036854775808 * nanosPerSecond

/-- `t` moved on by `d` nanoseconds, unless that is past the clock's horizon. -/
def later? (t : Instant) (d : Nat) : Option Instant :=
  if t + d < horizon then some (t + d) else none

/-- A duration in seconds, as a binary64 number, in nanoseconds. -/
def nanosOfSeconds? : Binary64 → Option Nat
  | .finite false m e =>
    if 0 ≤ e ∧ m * Nat.pow 2 e.toNat ≥ 18446744073709551616 then none
    else if e < 0 ∧ m ≥ 18446744073709551616 * Nat.pow 2 (-e).toNat then none
    else some (Binary64.scaleRound (m * nanosPerSecond) e)
  | .finite true m _ => if m = 0 then some 0 else none
  | _ => none

end Clock

end KvServer
