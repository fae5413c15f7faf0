import NodeRpc.Frame.Writer
import NodeRpc.Session.Basic

/-!
# The node's end of a session

The node reads the frames that the client has written, in order, and sends responses, notifications,
and whatever else it pleases.
-/

namespace NodeRpc

/-- As what the node reads the next frame. -/
inductive Reading where
  | frame
  | request
  | batch
  deriving DecidableEq, Inhabited

/-- What the node reads. -/
inductive Received where
  | frame (v : Json)
  | request (r : Request)
  | batch (rs : List Request)
  /-- The client has not written anything new. -/
  | pending
  /-- The client writes nothing more, or what it wrote is something else. -/
  | nothing
  deriving DecidableEq

/-- What the node does. -/
inductive NodeStep where
  | receive (as : Reading)
  | send (a : Arrival)
  | disconnect
  deriving DecidableEq

namespace NodeStep

/-- Sends a frame. -/
def push (frame : Json) : NodeStep := .send (.text frame.compact)

/-- Sends a response. -/
def respond (r : Response) : NodeStep := push r.toJson

/-- Sends a notification. -/
def notify (n : Notification) : NodeStep := push n.toJson

end NodeStep

/-- What a text is, read as `as`. -/
def Received.ofText (as : Reading) (text : String) : Received :=
  match as with
  | .frame => .frame (readFrame text)
  | .request => ((readRequest? text).map .request).getD .nothing
  | .batch => ((readBatch? text).map .batch).getD .nothing

/-- What a node reads that has read `taken` frames. -/
def Session.receive (s : Session) (taken : Nat) (as : Reading) : Received :=
  match s.link.calls.written[taken]? with
  | some f => .ofText as f.text
  | none => if s.isSilent then .nothing else .pending

/-- What the client's end becomes by a step of the node. -/
def Session.node (s : Session) : NodeStep → Session
  | .receive _ => s
  | .send a => s.arrive a
  | .disconnect => s.disconnect

/-- A session with the number of frames that its node has read. -/
structure Wire where
  session : Session
  taken : Nat := 0

/-- A step of the node; what it reads if it reads. -/
def Wire.node (w : Wire) (step : NodeStep) : Option Received × Wire :=
  match step with
  | .receive as =>
    let taken := if w.taken < w.session.link.calls.written.length then w.taken + 1 else w.taken
    (some (w.session.receive w.taken as), { w with taken })
  | step => (none, { w with session := w.session.node step })

end NodeRpc
