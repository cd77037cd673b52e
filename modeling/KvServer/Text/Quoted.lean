import KvServer.Text.Hex
import KvServer.Text.Printable

/-!
# Quoted text

Error messages show an offending text between double quotes. Inside, NUL, tab, carriage return,
line feed, backslash and the double quote are written as a backslash and a letter or the
character itself; every character that `Printable.shown` rejects is written as a backslash, `u`
and its code point in lowercase hexadecimal between braces; all else stands as it is. The single
quote is not escaped.
-/

namespace KvServer.Text

/-- How one character is written between the quotes. -/
def escape (c : Char) : List Char :=
  if c = '\x00' then ['\\', '0']
  else if c = '\t' then ['\\', 't']
  else if c = '\r' then ['\\', 'r']
  else if c = '\n' then ['\\', 'n']
  else if c = '\\' then ['\\', '\\']
  else if c = '"' then ['\\', '"']
  else if Printable.shown c then [c]
  else ['\\', 'u', '\x7b'] ++ hexDigits c.toNat ++ ['\x7d']

/-- The text between double quotes, escaped character by character. -/
def quote (s : String) : String :=
  String.ofList ('"' :: s.toList.flatMap escape ++ ['"'])

end KvServer.Text
