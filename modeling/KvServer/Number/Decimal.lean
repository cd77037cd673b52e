/-!
# Decimal text of integers

Integers are written in base ten, most significant digit first, with a leading `-` for a
negative value. Reading is the integer grammar of the wire format and of command arguments: an
optional sign (`+` always, `-` only for a signed range), then one or more ASCII digits and
nothing else, and the value must lie in the range asked for. No blank, underscore or radix
prefix is accepted.
-/

namespace KvServer.Decimal

/-- The digit character for `d < 10`. -/
def digitChar (d : Nat) : Char :=
  Char.ofNat ('0'.toNat + d)

/-- The digits of `n` in base ten, most significant first; `0` has the single digit `0`. -/
def digits (n : Nat) : List Char :=
  if n < 10 then [digitChar n] else digits (n / 10) ++ [digitChar (n % 10)]
termination_by n
decreasing_by omega

/-- The decimal text of a natural number. -/
def ofNat (n : Nat) : String :=
  String.ofList (digits n)

/-- The decimal text of an integer: a `-` before the digits of a negative value. -/
def ofInt (i : Int) : String :=
  if i < 0 then "-" ++ ofNat i.natAbs else ofNat i.natAbs

/-- The value of an ASCII digit character. -/
def digitValue (c : Char) : Nat :=
  c.toNat - '0'.toNat

/-- The value of a run of digit characters, most significant first. -/
def digitsValue (cs : List Char) : Nat :=
  cs.foldl (fun n c => 10 * n + digitValue c) 0

/-- The value of a nonempty run of ASCII digits; `none` for an empty run or any other character. -/
def ofDigits? (cs : List Char) : Option Nat :=
  if cs ≠ [] ∧ cs.all Char.isDigit then some (digitsValue cs) else none

/-- Reads an unsigned integer below `bound`: an optional `+`, then digits. -/
def parseNat? (bound : Nat) (s : String) : Option Nat :=
  let cs := s.toList
  let body := match cs with
    | '+' :: rest => rest
    | _ => cs
  (ofDigits? body).filter (· < bound)

/-- Reads a signed integer in `[lo, hi]`: an optional `+` or `-`, then digits. -/
def parseInt? (lo hi : Int) (s : String) : Option Int :=
  let value : Option Int := match s.toList with
    | '-' :: rest => (ofDigits? rest).map fun n => -(n : Int)
    | '+' :: rest => (ofDigits? rest).map fun n => (n : Int)
    | cs => (ofDigits? cs).map fun n => (n : Int)
  value.filter fun i => lo ≤ i ∧ i ≤ hi

/-- The least value of a signed 64-bit integer. -/
def int64Min : Int := -9223372036854775808

/-- The greatest value of a signed 64-bit integer. -/
def int64Max : Int := 9223372036854775807

/-- Reads a signed 64-bit integer. -/
def parseInt64? (s : String) : Option Int :=
  parseInt? int64Min int64Max s

/-- Reads an unsigned 64-bit integer. -/
def parseUInt64? (s : String) : Option Nat :=
  parseNat? 18446744073709551616 s

/-- Reads a 16-bit port number (zero included). -/
def parseUInt16? (s : String) : Option Nat :=
  parseNat? 65536 s

end KvServer.Decimal
