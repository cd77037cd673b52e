/-!
# Numeric IPv4 addresses

The numeric forms a host name may take, read as the system resolver reads them: one to four
parts separated by dots, each a decimal number, an octal one after a leading `0`, or a
hexadecimal one after `0x` or `0X`. Every part before the last is one byte; the last fills the
bytes left over, so `a` is the whole 32-bit address, `a.b` puts `b` in the low 24 bits and
`a.b.c` puts `c` in the low 16 bits. Nothing else may stand in the text. So `127.1`,
`0177.0.0.1`, `0x7f000001` and `2130706433` all name the loopback address, and `0` names every
interface.
-/

namespace KvServer.Net

namespace Ipv4

/-- The loopback address `127.0.0.1`. -/
def loopback : Nat := 0x7f000001

/-- The address that stands for every interface, `0.0.0.0`. -/
def any : Nat := 0

/-- The value of `c` as a digit in `base` (at most 16), if it is one. -/
def digitIn (base : Nat) (c : Char) : Option Nat :=
  let v :=
    if '0' ≤ c ∧ c ≤ '9' then some (c.toNat - '0'.toNat)
    else if 'a' ≤ c ∧ c ≤ 'f' then some (c.toNat - 'a'.toNat + 10)
    else if 'A' ≤ c ∧ c ≤ 'F' then some (c.toNat - 'A'.toNat + 10)
    else none
  v.filter (· < base)

/-- The value of a text made only of digits of `base`, added onto `acc`. -/
def digitsIn (base : Nat) : Nat → List Char → Option Nat
  | acc, [] => some acc
  | acc, c :: cs => (digitIn base c).bind fun d => digitsIn base (acc * base + d) cs

/-- The value of one part: `0x` or `0X` and at least one hexadecimal digit, a `0` and octal
digits, or decimal digits not starting with `0`. -/
def part? : List Char → Option Nat
  | '0' :: x :: c :: cs => if x = 'x' ∨ x = 'X' then digitsIn 16 0 (c :: cs)
    else digitsIn 8 0 (x :: c :: cs)
  | '0' :: cs => digitsIn 8 0 cs
  | c :: cs => if '1' ≤ c ∧ c ≤ '9' then digitsIn 10 0 (c :: cs) else none
  | [] => none

/-- The largest value the last part may take after `n` parts before it. -/
def lastLimit : Nat → Nat
  | 0 => 0xffffffff
  | 1 => 0xffffff
  | 2 => 0xffff
  | _ => 0xff

/-- The address from the bytes before the last part and the last part's value. -/
def assemble (bytes : List Nat) (last : Nat) : Option Nat :=
  if bytes.length > 3 ∨ bytes.any (· > 0xff) ∨ last > lastLimit bytes.length then none
  else
    some ((bytes ++ List.replicate (4 - bytes.length) 0).foldl (fun a b => a * 256 + b) 0 + last)

/-- The address a numeric host name stands for, if it is one. -/
def parse? (host : String) : Option Nat := do
  let parts ← (host.splitOn ".").mapM fun p => part? p.toList
  match parts.reverse with
  | [] => none
  | last :: before => assemble before.reverse last

end Ipv4

end KvServer.Net
