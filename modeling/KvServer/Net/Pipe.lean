/-!
# Byte streams

One direction of a socket: the bytes written and not yet read, how many may wait at once, and
whether either end has shut its side. A reader sees the end of the stream once the writer has
shut down and every byte has been read; a writer whose reader has gone gets a broken pipe.
-/

namespace KvServer.Net

/-- One direction of a socket. -/
structure Pipe where
  /-- Written and not yet read. -/
  bytes : List UInt8 := []
  /-- How many bytes may wait unread before a write must wait. -/
  capacity : Nat := 212992
  writerClosed : Bool := false
  readerClosed : Bool := false
  deriving Inhabited

namespace Pipe

/-- How many more bytes a write may put in now. -/
def room (p : Pipe) : Nat :=
  p.capacity - p.bytes.length

/-- Whether a read would return at once: bytes are waiting, or the writer has shut down. -/
def readable (p : Pipe) : Bool :=
  !p.bytes.isEmpty || p.writerClosed

/-- Whether a write would return at once: there is room, or the reader has gone. -/
def writable (p : Pipe) : Bool :=
  p.room > 0 || p.readerClosed

/-- Takes every waiting byte. -/
def take (p : Pipe) : List UInt8 × Pipe :=
  (p.bytes, { p with bytes := [] })

/-- Puts bytes in, regardless of room. -/
def put (p : Pipe) (bs : List UInt8) : Pipe :=
  { p with bytes := p.bytes ++ bs }

/-- Writes as much of `bs` as there is room for: how many bytes went in, or `none` for a broken
pipe. -/
def write (p : Pipe) (bs : List UInt8) : Option (Nat × Pipe) :=
  if p.readerClosed then none
  else
    let n := min p.room bs.length
    some (n, p.put (bs.take n))

end Pipe

end KvServer.Net
