import NodeRpc.Frame.Incoming
import NodeRpc.Link.Basic

/-!
# Sessions

A session is a link with a reader that takes what arrives from the node, one item after the other,
and hands it to the calls and subscriptions. An item that cannot be read is skipped. When what
arrives ends or fails, or the session is closed, the reader stops, and with it all calls and
subscriptions; a session is never revived.

While a delivery waits for room in the buffer of its stream the reader waits too.

The reader of a session that is closing looks for that and for the next item, or for the end of its
delivery, in no particular order, so it may take items for a while before it stops.
-/

namespace NodeRpc

/-- What arrives from the node. -/
inductive Arrival where
  | text (text : String)
  /-- Something that is no text. -/
  | malformed (reason : String)
  | failure (cause : CallError)
  deriving DecidableEq

/-- What the reader of a session is doing. -/
inductive Reader where
  /-- The connection has not been made. -/
  | idle
  | reading
  /-- Waits for delivery `d`. -/
  | delivering (d : Nat)
  | stopped
  deriving DecidableEq, Inhabited

/-- A connection and what goes on over it. -/
structure Session where
  link : Link
  reader : Reader := .reading
  /-- What has arrived and has not been read, in order. -/
  arrived : List Arrival := []
  /-- Whether nothing more will arrive. -/
  ended : Bool := false
  /-- Whether somebody other than a running call keeps the session. -/
  owned : Bool := true
  closing : Bool := false

namespace Session

/-- Applies `f` to the link. -/
def onLink (s : Session) (f : Link → Link) : Session := { s with link := f s.link }

/-- Whether a call or batch of a caller is under way. -/
def hasCallers (s : Session) : Bool :=
  (s.link.calls.exchanges.zip s.link.roles).any fun p => p.1.isLive && p.2 = .plain

/-- Whether the session has been closed on this side, or nobody keeps it any more. -/
def isClosing (s : Session) : Bool := s.closing || !(s.owned || s.hasCallers)

/-- Whether the session has ended or is about to. -/
def isClosed (s : Session) : Bool := s.isClosing || s.link.calls.closed

/-- Closes the session. Frames are refused from now on; the reader does the rest. -/
def close (s : Session) : Session :=
  { s with closing := true }.onLink fun l =>
    { l with calls := { l.calls with sink := .refuses .transportClosed } }

/-- Whether nothing will be written any more: the session was closed, or nothing is left that could
write. -/
def isSilent (s : Session) : Bool :=
  s.closing
    || ((s.reader = .stopped) && !s.owned && !s.link.calls.exchanges.any Exchange.isLive
      && !s.link.streams.any fun p => p.2.held)

/-- Takes an item from the node, unless it has ended. -/
def arrive (s : Session) (a : Arrival) : Session :=
  if s.ended then s else { s with arrived := s.arrived ++ [a] }

/-- Ends what arrives from the node. -/
def disconnect (s : Session) : Session := { s with ended := true }

/-! ### The reader -/

/-- Ends all calls and subscriptions. -/
def stop (s : Session) : Session :=
  { s with reader := .stopped }.onLink fun l => l.closeCalls.closeSubscriptions

/-- Gives delivery `d` a turn, and waits for it if it is not done. -/
def deliver (s : Session) (d : Nat) : Session :=
  let s := s.onLink (·.run (.delivery d))
  match s.link.deliveries[d]? with
  | some x => { s with reader := if x.stage = .done then .reading else .delivering d }
  | none => { s with reader := .reading }

/-- Handles one item. -/
def handle (s : Session) (a : Arrival) : Session :=
  match a with
  | .malformed _ => s
  | .failure _ => s.stop
  | .text text =>
    match Incoming.parse text with
    | .ok (.response r) => s.onLink (·.route r)
    | .ok (.batch rs) => s.onLink (·.routeBatch rs)
    | .ok (.rejected e) => s.onLink (·.reject e)
    | .ok (.notification n) => (s.onLink (·.dispatch n)).deliver s.link.deliveries.length
    | .error _ => s

/-- A turn of a reader that does not notice whether the session is closing. It handles at most one
item. -/
def readOn (s : Session) : Session :=
  match s.reader with
  | .idle | .stopped => s
  | .reading =>
    match s.arrived with
    | a :: arrived => { s with arrived }.handle a
    | [] => if s.ended then s.stop else s
  | .delivering d => s.deliver d

/-- The reader notices that the session is closing. It gives up what it waits for. -/
def leave (s : Session) : Session :=
  match s.reader with
  | .idle | .stopped => s
  | .reading => s.stop
  | .delivering d => (s.onLink (·.drop (.delivery d))).stop

/-- A turn of a reader that notices at once when the session is closing. -/
def read (s : Session) : Session := if s.isClosing then s.leave else s.readOn

/-- Whether the reader has something to do. -/
def canRead (s : Session) : Bool :=
  match s.reader with
  | .idle | .stopped => false
  | .reading => s.isClosing || !s.arrived.isEmpty || s.ended
  | .delivering d => s.isClosing || s.link.canRun (.delivery d)

/-! ### Tasks -/

/-- A task of a session. -/
inductive Task where
  | reader
  | exchange (k : Nat)
  deriving DecidableEq, Inhabited

/-- A turn of a task, if it can run. -/
def run (s : Session) : Task → Session
  | .reader => s.read
  | .exchange k => s.onLink (·.run (.exchange k))

/-- The tasks that can run, the reader first. -/
def enabled (s : Session) : List Task :=
  (if s.canRead then [.reader] else [])
    ++ ((List.range s.link.calls.exchanges.length).filter fun k =>
        s.link.canRun (.exchange k)).map .exchange

/-- A bound on the number of turns: the reader takes two for each item, each item makes at most one
exchange, and an exchange takes at most three and makes at most one more. -/
def effort (s : Session) : Nat :=
  8 * (s.arrived.length + s.link.tasks.length + 1)

/-- The session with its tasks. -/
def machine : Machine Session Task where
  enabled := enabled
  run := run
  effort := effort

end Session

end NodeRpc
