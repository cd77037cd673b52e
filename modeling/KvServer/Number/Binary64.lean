import KvServer.Number.Decimal

/-!
# Reading binary64 numbers from decimal text

A number is written with an optional sign, then `inf`, `infinity` or `nan` in any case, or
digits with an optional point (at least one digit on either side of it) and an optional
exponent (`e` or `E`, an optional sign, digits). The decimal value is rounded to the nearest
binary64 value, a tie going to the one with an even last bit; values past the largest finite one
round to an infinity and values below half the least subnormal one round to zero, keeping the
sign.

The value is kept exactly as `m · 2^e`, so no step after the one rounding can lose anything.
-/

namespace KvServer

/-- A binary64 value. A finite one is `m · 2^e` with its sign; zero keeps its sign too. -/
inductive Binary64 where
  | nan
  | infinite (negative : Bool)
  | finite (negative : Bool) (m : Nat) (e : Int)
  deriving DecidableEq, Inhabited

namespace Binary64

/-- `a / b` rounded to the nearest natural number, a tie going to the even one. -/
def roundHalfEven (a b : Nat) : Nat :=
  let q := a / b
  let r := a % b
  if 2 * r < b then q
  else if 2 * r > b then q + 1
  else if q % 2 = 0 then q else q + 1

/-- `n · 2^k` for an integer `k`, rounded to the nearest natural number, ties to even. -/
def scaleRound (n : Nat) (k : Int) : Nat :=
  if 0 ≤ k then n * Nat.pow 2 k.toNat else roundHalfEven n (Nat.pow 2 (-k).toNat)

/-- The binary64 magnitude nearest to `num / den` (both positive): the significand and the power
of two, or `none` when it is past the largest finite value. -/
def nearest (num den : Nat) : Option (Nat × Int) :=
  let k0 : Int := (Nat.log2 num : Int) - (Nat.log2 den : Int)
  -- `num / den` is at least `2 ^ k0` exactly when this holds
  let atLeast : Bool :=
    if 0 ≤ k0 then den * Nat.pow 2 k0.toNat ≤ num else den ≤ num * Nat.pow 2 (-k0).toNat
  let k : Int := if atLeast then k0 else k0 - 1
  -- 53 significant bits for a normal value, a fixed grid of 2^-1074 below
  let shift : Int := 52 - max k (-1022)
  let m := roundHalfEven (if 0 ≤ shift then num * Nat.pow 2 shift.toNat else num)
    (if 0 ≤ shift then den else den * Nat.pow 2 (-shift).toNat)
  -- the largest finite value is just below 2^1024: a carry out of the top binade overflows
  if k > 1023 ∨ (k = 1023 ∧ m = 9007199254740992) then none else some (m, -shift)

/-- The binary64 value nearest to `n · 10^exp`, with the given sign. -/
def ofDecimal (negative : Bool) (n : Nat) (exp : Int) : Binary64 :=
  let size : Int := (Decimal.digits n).length
  if n = 0 then .finite negative 0 0
  else if size + exp > 310 then .infinite negative
  else if size + exp < -330 then .finite negative 0 0
  else
    let num := if 0 ≤ exp then n * Nat.pow 10 exp.toNat else n
    let den := if 0 ≤ exp then 1 else Nat.pow 10 (-exp).toNat
    match nearest num den with
    | some (m, e) => .finite negative m e
    | none => .infinite negative

/-- The text in lower case (ASCII letters only). -/
def lower (cs : List Char) : List Char :=
  cs.map Char.toLower

/-- Reads the exponent part: nothing, or `e`/`E`, an optional sign and digits. -/
def exponent? : List Char → Option Int
  | [] => some 0
  | c :: rest =>
    if c = 'e' ∨ c = 'E' then
      match rest with
      | '-' :: ds => (Decimal.ofDigits? ds).map fun n => -(n : Int)
      | '+' :: ds => (Decimal.ofDigits? ds).map fun n => (n : Int)
      | ds => (Decimal.ofDigits? ds).map fun n => (n : Int)
    else none

/-- Reads an unsigned decimal number: its digits as a natural number and the power of ten. -/
def decimal? (cs : List Char) : Option (Nat × Int) :=
  let whole := cs.takeWhile Char.isDigit
  let afterWhole := cs.dropWhile Char.isDigit
  let (frac, afterFrac) := match afterWhole with
    | '.' :: rest => (rest.takeWhile Char.isDigit, rest.dropWhile Char.isDigit)
    | rest => ([], rest)
  let hasPoint := afterWhole.head? = some '.'
  if whole = [] ∧ frac = [] then none
  else if ¬hasPoint ∧ afterFrac ≠ afterWhole then none
  else
    (exponent? afterFrac).map fun e =>
      (Decimal.digitsValue (whole ++ frac), e - frac.length)

/-- Reads a binary64 number from its decimal text. -/
def parse? (s : String) : Option Binary64 :=
  let (negative, body) := match s.toList with
    | '-' :: rest => (true, rest)
    | '+' :: rest => (false, rest)
    | cs => (false, cs)
  let word := lower body
  if word = ['i', 'n', 'f'] ∨ word = "infinity".toList then some (.infinite negative)
  else if word = ['n', 'a', 'n'] then some .nan
  else (decimal? body).map fun (n, e) => ofDecimal negative n e

/-- Whether the value is a zero of either sign. -/
def isZero : Binary64 → Bool
  | .finite _ 0 _ => true
  | _ => false

end Binary64

end KvServer
