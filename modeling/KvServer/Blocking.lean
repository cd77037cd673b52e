import Std.Data.HashMap
import KvServer.ConnId
import KvServer.Clock
import KvServer.Store.Lists

/-!
# Blocked pops

A pop that finds no data leaves a block at the tail of its key's queue. A push to the key serves
the queue from the head: a block whose connection is gone is dropped without taking an item, a
block whose deadline has come is answered with a timeout, and every other block takes the next
item, until the queue or the list runs out. A block's timer may also remove it while it is still
queued. Blocks are numbered from 0 in the order they are made.
-/

namespace KvServer

/-- A pop waiting for data. -/
structure Block where
  id : Nat
  conn : ConnId
  deadline : Option Instant
  deriving DecidableEq, Inhabited

/-- What serving a queue does for one block. -/
inductive Wakeup where
  /-- The block's connection gets `value` from the list `key`. -/
  | served (conn : ConnId) (key value : String)
  /-- The block's deadline has come. -/
  | timedOut (conn : ConnId)

/-- The queues of blocks, by key. -/
structure Waiters where
  queues : Std.HashMap String (List Block) := {}
  nextId : Nat := 0
  deriving Inhabited

namespace Waiters

/-- The blocks waiting on `key`, first come first. -/
def queue (w : Waiters) (key : String) : List Block :=
  w.queues[key]?.getD []

/-- How many blocks wait on `key`. -/
def waiting (w : Waiters) (key : String) : Nat :=
  (w.queue key).length

/-- Sets the queue of `key`; an empty queue is removed. -/
def setQueue (w : Waiters) (key : String) (q : List Block) : Waiters :=
  { w with queues := if q = [] then w.queues.erase key else w.queues.insert key q }

/-- Queues a new block for `conn` behind every block already waiting on `key`. -/
def block (w : Waiters) (key : String) (conn : ConnId) (deadline : Option Instant) :
    Block × Waiters :=
  let b : Block := { id := w.nextId, conn, deadline }
  (b, { queues := w.queues.insert key (w.queue key ++ [b]), nextId := w.nextId + 1 })

/-- Serves the blocks `q` of `key` in order from the list store: the wake-ups, the blocks left
waiting, and the store afterwards. -/
def serve (live : ConnId → Bool) (now : Instant) (key : String) :
    List Block → Lists → List Wakeup × List Block × Lists
  | [], l => ([], [], l)
  | b :: bs, l =>
    if !live b.conn then serve live now key bs l
    else if b.deadline.any (· ≤ now) then
      let (ws, rest, l) := serve live now key bs l
      (.timedOut b.conn :: ws, rest, l)
    else
      match l.lpop key with
      | (none, _) => ([], b :: bs, l)
      | (some v, l) =>
        let (ws, rest, l) := serve live now key bs l
        (.served b.conn key v :: ws, rest, l)

/-- Hands the data just pushed to `key` to its waiting blocks. -/
def onPush (w : Waiters) (lists : Lists) (key : String) (live : ConnId → Bool) (now : Instant) :
    List Wakeup × Waiters × Lists :=
  match w.queues[key]? with
  | none => ([], w, lists)
  | some q =>
    let (ws, rest, lists) := serve live now key q lists
    (ws, w.setQueue key rest, lists)

/-- Removes block `id` from the queue of `key` if it is still there, answering its connection. -/
def expire (w : Waiters) (key : String) (id : Nat) : Option ConnId × Waiters :=
  let q := w.queue key
  match q.find? (·.id = id) with
  | none => (none, w)
  | some b => (some b.conn, w.setQueue key (q.filter (·.id ≠ id)))

end Waiters

end KvServer
