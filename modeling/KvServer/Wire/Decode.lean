import KvServer.Wire.Value
import KvServer.Wire.Buffer
import KvServer.Text.Hex
import KvServer.Text.Quoted

/-!
# Reading values from bytes

A value is read from the front of some bytes. The prefix byte chooses the kind; a line ends at
the first carriage return and line feed and must be UTF-8; an integer line is a signed 64-bit
integer; a length line is `-1` for null or an unsigned 64-bit integer, at most 512 MiB for a bulk
text; a bulk body is read by its length, must be UTF-8, and must be followed by a line end.
Arrays nest at most 32 deep. When the bytes run out the answer is `incomplete`, so that reading
can start again from the same place once more bytes have arrived.

Every answer also says where reading stopped, which is what a buffer's cursor shows.
-/

namespace KvServer

/-- Why bytes are not a value of the wire format. -/
inductive WireError where
  | unknownPrefix (byte : UInt8)
  | invalidLength (text : String)
  | invalidInteger (text : String)
  | invalidUtf8
  | missingTerminator
  | nestingTooDeep
  deriving DecidableEq, Inhabited

/-- The text that reports a wire error. -/
def WireError.message : WireError → String
  | .unknownPrefix b => "unknown RESP type prefix " ++ Text.byteText b
  | .invalidLength t => "invalid length " ++ Text.quote t
  | .invalidInteger t => "invalid integer " ++ Text.quote t
  | .invalidUtf8 => "invalid UTF-8 sequence"
  | .missingTerminator => "bulk string is not terminated by CRLF"
  | .nestingTooDeep => "arrays nested too deeply"

namespace Wire

/-- The largest bulk text accepted, in bytes. -/
def maxBulkLength : Nat := 512 * 1024 * 1024

/-- How deep arrays may nest: the outermost array is at depth 0. -/
def maxNesting : Nat := 32

/-- The outcome of reading from the front of some bytes, with the bytes left after the point
where reading stopped. -/
inductive Step (α : Type) where
  | done (a : α) (rest : List UInt8)
  | incomplete (rest : List UInt8)
  | failed (e : WireError) (rest : List UInt8)

/-- The text of UTF-8 bytes, if they are UTF-8. -/
def textOf? (bs : List UInt8) : Option String :=
  String.fromUTF8? ⟨bs.toArray⟩

/-- Reads a line and its text. -/
def readText (bs : List UInt8) : Step String :=
  match Buffer.splitLine bs with
  | none => .incomplete bs
  | some (line, rest) =>
    match textOf? line with
    | some t => .done t rest
    | none => .failed .invalidUtf8 rest

/-- A length line: null, or a count. -/
inductive Length where
  | null
  | count (n : Nat)

/-- Reads a length line: exactly `-1` is null, anything else must be an unsigned 64-bit integer. -/
def readLength (bs : List UInt8) : Step Length :=
  match readText bs with
  | .done t rest =>
    if t = "-1" then .done .null rest
    else match Decimal.parseNat? 18446744073709551616 t with
      | some n => .done (.count n) rest
      | none => .failed (.invalidLength t) rest
  | .incomplete r => .incomplete r
  | .failed e r => .failed e r

/-- Reads a bulk body of `n` bytes and its line end. -/
def readBulk (n : Nat) (bs : List UInt8) : Step Value :=
  if n > maxBulkLength then .failed (.invalidLength (Decimal.ofNat n)) bs
  else if bs.length < n then .incomplete bs
  else
    let body := bs.take n
    let after := bs.drop n
    match textOf? body with
    | none => .failed .invalidUtf8 after
    | some t =>
      match after with
      | 13 :: 10 :: rest => .done (.bulk t) rest
      | _ :: _ :: rest => .failed .missingTerminator rest
      | _ => .incomplete after

/-- Reads `n` more items with `item`, after the items `acc` (kept reversed). -/
def readItems (item : List UInt8 → Step Value) : Nat → List Value → List UInt8 → Step Value
  | 0, acc, bs => .done (.array acc.reverse) bs
  | n + 1, acc, bs =>
    match item bs with
    | .done v rest => readItems item n (v :: acc) rest
    | .incomplete r => .incomplete r
    | .failed e r => .failed e r

/-- Reads one value; `budget` is how many more levels of arrays may open. -/
def readValue : Nat → List UInt8 → Step Value
  | _, [] => .incomplete []
  | budget, b :: bs =>
    if b = 43 then
      match readText bs with
      | .done t rest => .done (.simple t) rest
      | .incomplete r => .incomplete r
      | .failed e r => .failed e r
    else if b = 45 then
      match readText bs with
      | .done t rest => .done (.error t) rest
      | .incomplete r => .incomplete r
      | .failed e r => .failed e r
    else if b = 58 then
      match readText bs with
      | .done t rest =>
        match Decimal.parseInt64? t with
        | some i => .done (.integer (Int64.ofInt i)) rest
        | none => .failed (.invalidInteger t) rest
      | .incomplete r => .incomplete r
      | .failed e r => .failed e r
    else if b = 36 then
      match readLength bs with
      | .done .null rest => .done .null rest
      | .done (.count n) rest => readBulk n rest
      | .incomplete r => .incomplete r
      | .failed e r => .failed e r
    else if b = 42 then
      match budget with
      | 0 => .failed .nestingTooDeep bs
      | budget + 1 =>
        match readLength bs with
        | .done .null rest => .done .null rest
        | .done (.count n) rest => readItems (fun xs => readValue budget xs) n [] rest
        | .incomplete r => .incomplete r
        | .failed e r => .failed e r
    else .failed (.unknownPrefix b) bs

/-- Reads one value from the front of `bs`. -/
def read (bs : List UInt8) : Step Value :=
  readValue maxNesting bs

end Wire

/-- What one attempt to read a frame from a buffer finds. -/
inductive Decoded where
  | frame (v : Value)
  | incomplete

namespace Buffer

/-- Reads one value at the read position. The cursor is left where reading stopped, also when
the value is incomplete or malformed. -/
def decode (b : Buffer) : Except WireError Decoded × Buffer :=
  let moved (rest : List UInt8) := b.advance (b.unread.length - rest.length)
  match Wire.read b.unread with
  | .done v rest => (.ok (.frame v), moved rest)
  | .incomplete rest => (.ok .incomplete, moved rest)
  | .failed e rest => (.error e, moved rest)

/-- The frames at the front of the buffer, read one by one with a mark before each: a frame is
committed, an incomplete one is rewound, and an error stops reading. Each round either commits
at least one byte or stops, so `fuel` rounds beyond the buffer length are never needed. -/
def drainWith (limit : Option Nat) : Nat → Buffer → List Value × Option WireError × Buffer
  | 0, b => ([], none, b)
  | fuel + 1, b =>
    if limit = some 0 then ([], none, b)
    else
      match b.mark.decode with
      | (.ok (.frame v), b') =>
        let (vs, e, b'') := drainWith (limit.map (· - 1)) fuel b'.commit
        (v :: vs, e, b'')
      | (.ok .incomplete, b') => ([], none, b'.reset)
      | (.error e, b') => ([], some e, b')

/-- Every complete frame at the front of the buffer, with the first error if reading failed. -/
def drain (b : Buffer) : List Value × Option WireError × Buffer :=
  drainWith none (b.len + 1) b

/-- At most `n` complete frames from the front of the buffer. -/
def drainAtMost (n : Nat) (b : Buffer) : List Value × Option WireError × Buffer :=
  drainWith (some n) (b.len + 1) b

end Buffer

end KvServer

namespace KvServer.Buffer

/-- Appends the chunks one at a time and reads every complete frame after each: the frames in
order, the first error (nothing is read after it), and the buffer that is left. -/
def feed : List (List UInt8) → Buffer → List Value × Option WireError × Buffer
  | [], b => ([], none, b)
  | c :: cs, b =>
    match (b.append c).drain with
    | (vs, some e, b') => (vs, some e, b')
    | (vs, none, b') =>
      let (ws, e, b'') := feed cs b'
      (vs ++ ws, e, b'')

end KvServer.Buffer
