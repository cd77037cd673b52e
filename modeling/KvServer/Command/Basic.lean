import KvServer.Command.Error
import KvServer.ConnId

/-!
# Commands

A command is a verb with its arguments, bound to the connection that sent it. It is read from a
request array whose elements are all bulk or simple texts: the verb first, then the arguments.
The verb is looked up before the arguments are checked, so an unknown verb is reported even when
a later element is not a text.
-/

namespace KvServer

/-- A command: who sent it, its verb and its arguments. -/
structure Command where
  origin : ConnId
  verb : Verb
  args : List String
  deriving Inhabited

namespace Command

/-- The text of a request element, if it is a bulk or simple text. -/
def part? : Value → Option String
  | .bulk s | .simple s => some s
  | _ => none

/-- Reads a command from a request frame. -/
def ofFrame (origin : ConnId) : Value → Except CommandError Command
  | .array (first :: rest) =>
    match part? first with
    | none => .error .invalidCommand
    | some name =>
      match Verb.parse? name with
      | none => .error (.unknownCommand name)
      | some verb =>
        match rest.mapM part? with
        | none => .error .invalidCommand
        | some args => .ok { origin, verb, args }
  | _ => .error .invalidCommand

/-- Whether there are at least as many elements as the verb needs. -/
def hasArity (c : Command) : Bool :=
  c.verb.arity ≤ c.args.length + 1

/-- The command as a request array, verb in upper case: the form replicas receive. -/
def toRequest (c : Command) : Value :=
  Value.command (c.verb.keyword :: c.args)

end Command

/-- A request for an action: who sent it, the action and its arguments. Only such requests
wait in a transaction. -/
structure Request where
  origin : ConnId
  action : Action
  args : List String
  deriving Inhabited

/-- The command a request stands for. -/
def Request.toCommand (q : Request) : Command :=
  { origin := q.origin, verb := .action q.action, args := q.args }

/-- The request as a request array, verb in upper case: the form replicas receive. -/
def Request.toValue (q : Request) : Value :=
  q.toCommand.toRequest

/-- What running a command gives its connection: a reply now, or a reply later. -/
inductive Outcome where
  | completed (reply : Value)
  /-- The reply will be delivered later and the connection waits for it. -/
  | suspended
  deriving Inhabited

end KvServer
