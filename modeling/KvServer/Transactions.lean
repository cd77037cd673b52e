import Std.Data.HashMap
import KvServer.Command.Basic

/-!
# Transactions

A connection is inside a transaction exactly while it owns a queue. Inside one, every command
except MULTI, EXEC and DISCARD is queued instead of run; EXEC hands the queue back in order and
ends the transaction, DISCARD drops it.
-/

namespace KvServer

/-- The command queues of the connections inside a transaction. -/
structure Transactions where
  queues : Std.HashMap ConnId (List Request) := {}
  deriving Inhabited

namespace Transactions

/-- Starts a transaction for `c`; one already started keeps its queue. -/
def multi (t : Transactions) (c : ConnId) : Transactions :=
  if t.queues.contains c then t else { queues := t.queues.insert c [] }

/-- Whether `c` is inside a transaction. -/
def isActive (t : Transactions) (c : ConnId) : Bool :=
  t.queues.contains c

/-- Queues `cmd` if its sender is inside a transaction and it is no transaction control;
`none` when it must run at once. -/
def enqueue? (t : Transactions) (cmd : Command) : Option Transactions :=
  match cmd.verb with
  | .action a =>
    match t.queues[cmd.origin]? with
    | some q => some { queues := t.queues.insert cmd.origin (q ++ [⟨cmd.origin, a, cmd.args⟩]) }
    | none => none
  | _ => none

/-- Ends the transaction of `c`, handing back its queue in order. -/
def exec? (t : Transactions) (c : ConnId) : Option (List Request × Transactions) :=
  t.queues[c]?.map fun q => (q, { queues := t.queues.erase c })

/-- Drops the transaction of `c`. -/
def discard? (t : Transactions) (c : ConnId) : Option Transactions :=
  if t.queues.contains c then some { queues := t.queues.erase c } else none

/-- Forgets `c`'s transaction, if any. -/
def remove (t : Transactions) (c : ConnId) : Transactions :=
  { queues := t.queues.erase c }

end Transactions

end KvServer
