/-!
# Hexadecimal text

Lowercase hexadecimal digits, used for the escapes of quoted text and for naming a byte in an
error message (`0x` and exactly two digits).
-/

namespace KvServer.Text

/-- The lowercase hexadecimal digit for `d < 16`. -/
def hexChar (d : Nat) : Char :=
  if d < 10 then Char.ofNat ('0'.toNat + d) else Char.ofNat ('a'.toNat + (d - 10))

/-- The hexadecimal digits of `n`, most significant first, without leading zeros. -/
def hexDigits (n : Nat) : List Char :=
  if n < 16 then [hexChar n] else hexDigits (n / 16) ++ [hexChar (n % 16)]
termination_by n
decreasing_by omega

/-- A byte as `0x` and two lowercase digits, as error messages name it. -/
def byteText (b : UInt8) : String :=
  String.ofList ['0', 'x', hexChar (b.toNat / 16), hexChar (b.toNat % 16)]

end KvServer.Text
