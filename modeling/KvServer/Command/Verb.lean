/-!
# Verbs

The verbs a client may send, how each is spelled, and how many request elements (the verb
included) each needs at least. A verb is recognised whatever the case of its ASCII letters;
letters outside ASCII are compared as they are.

MULTI, EXEC and DISCARD control transactions and always run at once. Every other verb is an
action: inside a transaction it waits in the queue, and EXEC runs it later.
-/

namespace KvServer

/-- A verb that acts on data or reports, and that a transaction may queue. -/
inductive Action where
  | ping | echo | set | get | incr | rpush | lpush | lrange | llen | lpop | blpop
  | info | replconf | psync
  deriving DecidableEq, Inhabited, Repr

/-- A verb of a request. -/
inductive Verb where
  | action (a : Action)
  | multi
  | exec
  | discard
  deriving DecidableEq, Inhabited, Repr

namespace Verb

/-- Every verb. -/
def all : List Verb :=
  [.action .ping, .action .echo, .action .set, .action .get, .action .incr, .action .rpush,
    .action .lpush, .action .lrange, .action .llen, .action .lpop, .action .blpop, .multi,
    .exec, .discard, .action .info, .action .replconf, .action .psync]

/-- The verb's name in lower case, as error messages spell it. -/
def name : Verb → String
  | .action .ping => "ping" | .action .echo => "echo" | .action .set => "set"
  | .action .get => "get" | .action .incr => "incr" | .action .rpush => "rpush"
  | .action .lpush => "lpush" | .action .lrange => "lrange" | .action .llen => "llen"
  | .action .lpop => "lpop" | .action .blpop => "blpop" | .action .info => "info"
  | .action .replconf => "replconf" | .action .psync => "psync"
  | .multi => "multi" | .exec => "exec" | .discard => "discard"

/-- The text in upper case: ASCII letters are raised, every other character is kept. -/
def upper (s : String) : String :=
  String.ofList (s.toList.map Char.toUpper)

/-- The verb's name in upper case, as requests spell it. -/
def keyword (v : Verb) : String :=
  upper v.name

/-- The least number of request elements, the verb included. -/
def arity : Verb → Nat
  | .action .ping | .multi | .exec | .discard | .action .info => 1
  | .action .echo | .action .get | .action .incr | .action .llen | .action .lpop => 2
  | .action .set | .action .rpush | .action .lpush | .action .blpop | .action .replconf
  | .action .psync => 3
  | .action .lrange => 4

/-- MULTI, EXEC and DISCARD run even inside a transaction. -/
def isTransactionControl : Verb → Bool
  | .action _ => false
  | _ => true

/-- The verb spelled by `s`, ignoring the case of ASCII letters. -/
def parse? (s : String) : Option Verb :=
  let u := upper s
  all.find? fun v => v.keyword = u

end Verb

end KvServer
