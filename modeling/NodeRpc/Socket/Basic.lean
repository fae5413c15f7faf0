import NodeRpc.Session.Node
import NodeRpc.Text.Utf8

/-!
# Web sockets

What the peer of a web socket sends, as it arrives at a session. Binary messages are read as text;
pings and pongs are no frames; a closing handshake ends what arrives, and so does the loss of the
connection.
-/

namespace NodeRpc

/-- What the peer sends. -/
inductive SocketMessage where
  | text (text : String)
  | binary (bytes : List Nat)
  | ping
  | pong
  /-- The closing handshake. -/
  | close
  /-- The connection is lost. -/
  | gone
  deriving DecidableEq

/-- What the session's node does by a message; nothing if the message is no frame. -/
def SocketMessage.step? : SocketMessage → Option NodeStep
  | .text t => some (.send (.text t))
  | .binary bytes =>
    match Utf8.text? bytes with
    | some t => some (.send (.text t))
    | none => some (.send (.malformed FrameError.notText.message))
  | .ping | .pong => none
  | .close => some .disconnect
  | .gone => some (.send (.failure (.transport (.failed "connection lost"))))

/-- What becomes of a session by messages. -/
def Session.receiveAll (s : Session) (messages : List SocketMessage) : Session :=
  (messages.filterMap SocketMessage.step?).foldl Session.node s

end NodeRpc
