/-!
# Frame buffer

Bytes received from a peer, with a read cursor and a mark. Reading moves the cursor forward and
keeps every byte; `reset` rewinds the cursor to the mark, so a decoder that runs out of bytes in
the middle of a frame can try again once more bytes have been appended; `commit` discards what
was read. `consume` drops bytes from the front after a partial write. The cursor and the mark
never pass the end of the data, and every operation keeps that so.
-/

namespace KvServer

/-- A byte buffer with a read cursor and a mark. -/
structure Buffer where
  /-- The bytes not yet committed or consumed. -/
  bytes : List UInt8 := []
  /-- How many of `bytes` have been read. -/
  cursor : Nat := 0
  /-- The cursor position that `reset` returns to. -/
  marked : Nat := 0
  deriving Inhabited

namespace Buffer

/-- The empty buffer. -/
def empty : Buffer := {}

/-- Appends bytes at the end. -/
def append (b : Buffer) (more : List UInt8) : Buffer :=
  { b with bytes := b.bytes ++ more }

/-- Remembers the current read position. -/
def mark (b : Buffer) : Buffer :=
  { b with marked := b.cursor }

/-- Rewinds the read position to the mark. -/
def reset (b : Buffer) : Buffer :=
  { b with cursor := b.marked }

/-- Discards every byte before the read position. -/
def commit (b : Buffer) : Buffer :=
  { bytes := b.bytes.drop b.cursor, cursor := 0, marked := 0 }

/-- Drops up to `n` bytes from the front, moving the cursor and the mark back with them. -/
def consume (b : Buffer) (n : Nat) : Buffer :=
  let n := min n b.bytes.length
  { bytes := b.bytes.drop n, cursor := b.cursor - n, marked := b.marked - n }

/-- The number of bytes held. -/
def len (b : Buffer) : Nat :=
  b.bytes.length

/-- Whether no byte is held. -/
def isEmpty (b : Buffer) : Bool :=
  b.bytes.isEmpty

/-- The bytes after the read position. -/
def unread (b : Buffer) : List UInt8 :=
  b.bytes.drop b.cursor

/-- The number of bytes after the read position. -/
def remaining (b : Buffer) : Nat :=
  b.len - b.cursor

/-- Moves the read position forward by `n`. -/
def advance (b : Buffer) (n : Nat) : Buffer :=
  { b with cursor := b.cursor + n }

/-- The next byte, if there is one. -/
def readByte (b : Buffer) : Option (UInt8 × Buffer) :=
  match b.unread with
  | [] => none
  | x :: _ => some (x, b.advance 1)

/-- The bytes before the first carriage return and line feed of `bs`, and those after it. -/
def splitLine : List UInt8 → Option (List UInt8 × List UInt8)
  | [] => none
  | [_] => none
  | x :: y :: rest =>
    if x = 13 ∧ y = 10 then some ([], rest)
    else (splitLine (y :: rest)).map fun (line, after) => (x :: line, after)

/-- The unread bytes up to the next line end, which is read as well. -/
def readLine (b : Buffer) : Option (List UInt8 × Buffer) :=
  (splitLine b.unread).map fun (line, _) => (line, b.advance (line.length + 2))

/-- The next `n` unread bytes, if that many are there. -/
def readExact (b : Buffer) (n : Nat) : Option (List UInt8 × Buffer) :=
  if n ≤ b.remaining then some (b.unread.take n, b.advance n) else none

end Buffer

end KvServer
