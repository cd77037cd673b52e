import KvServer.Number.Decimal

/-!
# Wire values

A value of the wire format is a simple text, an error text, a signed 64-bit integer, a bulk
text, null, or an array of values. Each kind is written behind its own prefix character and
ends with a carriage return and line feed; a bulk text is preceded by its length in UTF-8
bytes, an array by its number of items, and null is written as a bulk text of length `-1`.
-/

namespace KvServer

/-- A value of the wire format. -/
inductive Value where
  | simple (text : String)
  | error (text : String)
  | integer (n : Int64)
  | bulk (text : String)
  | null
  | array (items : List Value)
  deriving Inhabited

namespace Value

/-- The line end of the wire format. -/
def crlf : String := "\r\n"

mutual

/-- The wire text of a value. -/
def render : Value → String
  | .simple s => "+" ++ s ++ crlf
  | .error s => "-" ++ s ++ crlf
  | .integer n => ":" ++ Decimal.ofInt n.toInt ++ crlf
  | .bulk s => "$" ++ Decimal.ofNat s.utf8ByteSize ++ crlf ++ s ++ crlf
  | .null => "$-1" ++ crlf
  | .array items => "*" ++ Decimal.ofNat items.length ++ crlf ++ renderAll items

/-- The wire texts of the items of an array, one after the other. -/
def renderAll : List Value → String
  | [] => ""
  | v :: vs => render v ++ renderAll vs

end

/-- The bytes of a text in UTF-8. -/
def utf8 (s : String) : List UInt8 :=
  s.toUTF8.data.toList

/-- The wire bytes of a value. -/
def encode (v : Value) : List UInt8 :=
  utf8 v.render

/-- The simple text `OK`. -/
def ok : Value := .simple "OK"

/-- A request array: each part as a bulk text. -/
def command (parts : List String) : Value :=
  .array (parts.map .bulk)

/-- The text carried by a simple text, an error or a bulk text. -/
def text? : Value → Option String
  | .simple s | .error s | .bulk s => some s
  | _ => none

/-- Whether the value is an error. -/
def isError : Value → Bool
  | .error _ => true
  | _ => false

end Value

end KvServer
