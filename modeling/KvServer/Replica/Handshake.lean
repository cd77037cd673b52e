import KvServer.Wire.Value
import KvServer.Text.Blank
import KvServer.Text.Quoted

/-!
# The replica handshake

A replica greets its master in four steps, one request at a time: `PING`, answered by `PONG`;
`REPLCONF listening-port <port>` and `REPLCONF capa psync2`, each answered by `OK`; and
`PSYNC ? -1`, answered by a text that contains `FULLRESYNC`. The texts are compared ignoring the
case of ASCII letters, except the last, and an error value is never accepted. Any other reply, or
a reply when no request is outstanding, fails the handshake and sends it back to the start.
-/

namespace KvServer

/-- How far the handshake has come: the request now outstanding, or done. -/
inductive Stage where
  | ping | listeningPort | capabilities | psync | done
  deriving DecidableEq, Inhabited

/-- The stage's name in messages. -/
def Stage.name : Stage → String
  | .ping => "Ping" | .listeningPort => "ListeningPort" | .capabilities => "Capabilities"
  | .psync => "Psync" | .done => "Done"

/-- Why a handshake failed. -/
inductive HandshakeError where
  /-- The reply does not answer the request of the stage; the reply is kept as wire text
  without its trailing blanks. -/
  | unexpectedReply (stage : Stage) (reply : String)
  /-- A reply came while no request was outstanding. -/
  | notStarted
  deriving DecidableEq, Inhabited

/-- The text that reports a handshake failure. -/
def HandshakeError.message : HandshakeError → String
  | .unexpectedReply stage reply =>
    "unexpected reply " ++ Text.quote reply ++ " during " ++ stage.name ++ " stage"
  | .notStarted => "reply received before the handshake started"

/-- A replica's handshake with its master. -/
structure Handshake where
  stage : Stage := .ping
  requestSent : Bool := false
  /-- The port the replica listens on, announced to the master. -/
  port : UInt16
  deriving Inhabited

/-- Whether `needle` occurs in `hay` as a contiguous run. -/
def occursIn (needle : List Char) : List Char → Bool
  | [] => needle.isEmpty
  | c :: cs => needle.isPrefixOf (c :: cs) || occursIn needle cs

/-- Whether two texts are equal ignoring the case of ASCII letters. -/
def equalsIgnoringCase (a b : String) : Bool :=
  a.toList.map Char.toLower == b.toList.map Char.toLower

namespace Handshake

/-- A handshake that has not started. -/
def new (port : UInt16) : Handshake := { port }

/-- Whether all four replies have been accepted. -/
def isDone (h : Handshake) : Bool :=
  h.stage == .done

/-- Back to the start, with nothing outstanding. -/
def reset (h : Handshake) : Handshake :=
  { h with stage := .ping, requestSent := false }

/-- Starts over and answers the first request. -/
def start (h : Handshake) : Value × Handshake :=
  (Value.command ["PING"], { h.reset with requestSent := true })

/-- Whether `text` answers the request of `stage`. -/
def accepts (stage : Stage) (text : String) : Bool :=
  match stage with
  | .ping => equalsIgnoringCase text "PONG"
  | .listeningPort | .capabilities => equalsIgnoringCase text "OK"
  | .psync => occursIn "FULLRESYNC".toList text.toList
  | .done => false

/-- The stage after an accepted reply, and the request to send next, if any. -/
def next (h : Handshake) : Stage × Option Value :=
  match h.stage with
  | .ping =>
    (.listeningPort, some (Value.command ["REPLCONF", "listening-port", Decimal.ofNat h.port.toNat]))
  | .listeningPort => (.capabilities, some (Value.command ["REPLCONF", "capa", "psync2"]))
  | .capabilities => (.psync, some (Value.command ["PSYNC", "?", "-1"]))
  | .psync | .done => (.done, none)

/-- Takes the master's reply: the next request to send, none once done, or the failure. -/
def onReply (h : Handshake) (reply : Value) : Except HandshakeError (Option Value) × Handshake :=
  if !h.requestSent || h.isDone then (.error .notStarted, h.reset)
  else if !accepts h.stage (reply.text?.getD "") || reply.isError then
    (.error (.unexpectedReply h.stage (Text.trimEnd reply.render)), h.reset)
  else
    let (stage, request) := h.next
    (.ok request, { h with stage, requestSent := request.isSome })

end Handshake

end KvServer
