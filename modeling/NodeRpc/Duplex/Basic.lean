import NodeRpc.Session.Basic

/-!
# A shared connection that is made on demand

All uses go through one session. The first use makes the connection, and so does the first one after
the session has ended; nothing of the old session is replayed. Whoever looks for the session holds a
lock, so that at most one connection is being made at any time; the lock is handed on in the order
in which it was asked for. A connection that cannot be made fails only the use that made it.
-/

namespace NodeRpc

/-- What becomes of an attempt to connect. -/
inductive Dial where
  | connects
  | refuses
  /-- It connects once somebody resumes it. -/
  | stalls
  /-- It is refused once somebody resumes it. -/
  | lapses
  deriving DecidableEq, Inhabited

/-- What the session is used for. -/
inductive Purpose where
  | call (call : Call)
  | batch (calls : List Call)
  /-- Opens a subscription; one that is not kept is dropped as soon as it is open. -/
  | subscribe (request : SubscriptionRequest) (kept : Bool)
  | close
  deriving DecidableEq, Inhabited

/-- How far a use has come. -/
inductive UseStage where
  | fresh
  /-- Waits for the lock. -/
  | queued
  /-- Holds the lock and waits for connection `n`. -/
  | dialing (n : Nat) (ready : Bool)
  /-- Goes on as exchange `exchange` of session `session`. -/
  | within (session exchange : Nat)
  /-- Has opened the subscription `handle` on session `session`. -/
  | opened (session handle : Nat)
  | failed (cause : CallError)
  | closed
  | abandoned
  deriving DecidableEq, Inhabited

/-- One use of the shared session. -/
structure Use where
  purpose : Purpose
  token : Token
  stage : UseStage := .fresh
  deriving DecidableEq, Inhabited

/-- A shared connection. -/
structure Duplex where
  /-- What becomes of the attempts to connect; all later ones are refused. -/
  plan : List Dial
  /-- A session for each entry of the plan, idle until it is connected. -/
  sessions : List Session
  current : Option Nat := none
  dials : Nat := 0
  /-- The uses that hold the lock or wait for it, in order. -/
  lock : List Nat := []
  uses : List Use := []
  cancelled : List Token := []

namespace Duplex

/-- A connection with the given plan, whose sessions have the given link. -/
def ofPlan (plan : List Dial) (link : Link) : Duplex :=
  { plan, sessions := plan.map fun _ => { link, reader := .idle, owned := false } }

/-- Why a connection is not made. -/
def refusal : CallError := .connectionFailed "memory" "refused"

/-- Applies `f` to session `n`. -/
def onSession (d : Duplex) (n : Nat) (f : Session → Session) : Duplex :=
  { d with sessions := d.sessions.modify n f }

/-- Makes a use, which has the number `uses.length`. -/
def make (d : Duplex) (purpose : Purpose) (token : Token) : Duplex :=
  { d with uses := d.uses ++ [{ purpose, token }] }

/-- Replaces the stage of use `u`. -/
def setStage (d : Duplex) (u : Nat) (stage : UseStage) : Duplex :=
  { d with uses := d.uses.modify u fun x => { x with stage } }

/-- Takes use `u` out of the queue for the lock. -/
def unlock (d : Duplex) (u : Nat) : Duplex := { d with lock := d.lock.filter (· ≠ u) }

/-- Ends use `u`. -/
def finish (d : Duplex) (u : Nat) (stage : UseStage) : Duplex := (d.unlock u).setStage u stage

/-- The session that is in use, if it has not ended. -/
def live? (d : Duplex) : Option Nat :=
  match d.current with
  | none => none
  | some n =>
    match d.sessions[n]? with
    | some s => if s.isClosed then none else some n
    | none => none

/-- Lets go of the session that is in use. -/
def letGo (d : Duplex) : Duplex :=
  match d.current with
  | none => d
  | some n => { d with current := none }.onSession n fun s => { s with owned := false }

/-- Use `u` goes on in session `n`, and no longer holds the lock. -/
def enter (d : Duplex) (u n : Nat) (x : Use) : Duplex :=
  match d.sessions[n]? with
  | none => d
  | some s =>
    let k := s.link.calls.exchanges.length
    let start (f : Link → Link) (d : Duplex) : Duplex :=
      d.onSession n fun s => s.onLink fun l => (f l).run (.exchange k)
    match x.purpose with
    | .call call => (d.finish u (.within n k)) |> start (·.call call x.token)
    | .batch calls => (d.finish u (.within n k)) |> start (·.batch calls x.token)
    | .subscribe request kept =>
      let handle := s.link.subscriptions.nextHandle
      (d.finish u (.opened n handle)).onSession n fun s =>
        s.onLink fun l =>
          let l := l.open request x.token
          if kept then l else l.dropStream handle true
    | .close => d.finish u .closed

/-- Connection `n` has been made for use `u`. -/
def connected (d : Duplex) (u n : Nat) (x : Use) : Duplex :=
  let d := d.onSession n fun s => { s with reader := .reading, owned := true }
  { d with current := some n }.enter u n x

/-- Use `u`, which holds the lock, makes a connection. -/
def dial (d : Duplex) (u : Nat) (x : Use) : Duplex :=
  let n := d.dials
  let d := { d with dials := n + 1 }
  match d.plan[n]? with
  | some .connects => d.connected u n x
  | some .stalls | some .lapses => d.setStage u (.dialing n false)
  | _ => d.finish u (.failed refusal)

/-- Use `u` has waited for connection `n` long enough. -/
def dialed (d : Duplex) (u n : Nat) (x : Use) : Duplex :=
  match d.plan[n]? with
  | some .lapses => d.finish u (.failed refusal)
  | _ => d.connected u n x

/-- Use `u` holds the lock. -/
def proceed (d : Duplex) (u : Nat) (x : Use) : Duplex :=
  match x.purpose with
  | .close =>
    let d := match d.current with
      | some n => d.onSession n Session.close
      | none => d
    d.letGo.finish u .closed
  | _ =>
    match d.live? with
    | some n => d.enter u n x
    | none => d.letGo.dial u x

/-- Whether a token has been cancelled. -/
def isCancelled (d : Duplex) (token : Token) : Bool := d.cancelled.contains token

/-- Lets use `u` go as far as it can. -/
def runUse (d : Duplex) (u : Nat) : Duplex :=
  match d.uses[u]? with
  | none => d
  | some x =>
    match x.stage with
    | .fresh =>
      if d.isCancelled x.token then d.finish u (.failed .cancelled)
      else
        let d := { d with lock := d.lock ++ [u] }
        if d.lock.head? = some u then d.proceed u x else d.setStage u .queued
    | .queued =>
      if d.isCancelled x.token then d.finish u (.failed .cancelled)
      else if d.lock.head? = some u then d.proceed u x
      else d
    | .dialing n ready =>
      if d.isCancelled x.token then d.finish u (.failed .cancelled)
      else if ready then d.dialed u n x
      else d
    | _ => d

/-- Whether use `u` has something to do. -/
def canUse (d : Duplex) (u : Nat) : Bool :=
  match d.uses[u]? with
  | none => false
  | some x =>
    match x.stage with
    | .fresh => true
    | .queued => d.isCancelled x.token || d.lock.head? = some u
    | .dialing _ ready => d.isCancelled x.token || ready
    | _ => false

/-- Gives up use `u`. -/
def abandon (d : Duplex) (u : Nat) : Duplex :=
  match d.uses[u]? with
  | none => d
  | some x =>
    match x.stage with
    | .fresh | .queued | .dialing .. => d.finish u .abandoned
    | .within n k => d.onSession n fun s => s.onLink (·.drop (.exchange k))
    | _ => d

/-- Lets all connections be made, or refused, that are waited for. -/
def resume (d : Duplex) : Duplex :=
  { d with uses := d.uses.map fun x =>
      match x.stage with
      | .dialing n _ => { x with stage := .dialing n true }
      | _ => x }

/-- Opens a subscription if that can be done at once, and gives up otherwise. The use that was made
for it has the number `uses.length`. -/
def attempt (d : Duplex) (request : SubscriptionRequest) (token : Token) : Duplex :=
  let u := d.uses.length
  ((d.make (.subscribe request true) token).runUse u).abandon u

/-- Cancels the token `t`. -/
def cancel (d : Duplex) (t : Token) : Duplex :=
  { d with
    cancelled := t :: d.cancelled
    sessions := d.sessions.map fun s => s.onLink (·.cancel t) }

/-- Whether nobody is looking for the session. -/
def isUnlocked (d : Duplex) : Bool := d.lock.isEmpty

/-! ### Tasks -/

/-- A task of a shared connection. -/
inductive Task where
  | use (u : Nat)
  | session (n : Nat) (task : Session.Task)
  deriving DecidableEq, Inhabited

/-- A turn of a task, if it can run. -/
def run (d : Duplex) : Task → Duplex
  | .use u => d.runUse u
  | .session n task => d.onSession n (·.run task)

/-- The tasks that can run. -/
def enabled (d : Duplex) : List Task :=
  ((List.range d.uses.length).filter d.canUse).map .use
    ++ (d.sessions.zipIdx).flatMap fun p => p.1.enabled.map (.session p.2)

/-- The shared connection with its tasks. -/
def machine : Machine Duplex Task where
  enabled := enabled
  run := run
  effort d := d.sessions.foldl (fun sum s => sum + s.effort) (16 * (d.uses.length + 1))

end Duplex

end NodeRpc
