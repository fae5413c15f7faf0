import NodeRpc.Calls.Basic
import NodeRpc.Schedule
import NodeRpc.Subscriptions.Basic
import NodeRpc.Subscriptions.Stream

/-!
# The client's end of a connection

A link carries calls and subscriptions. Opening a subscription makes a subscribe call; when the
response to it is routed, the id is recorded and routed at once, so that no notification behind the
response is missed. A subscription that ends while the node knows of it is closed there by a call
that nobody waits for and that is given up after ten seconds.

Notifications wait in the buffer of their stream, which is bounded; what does not fit waits or is
dropped, as the policy says.
-/

namespace NodeRpc

/-- What an exchange of a link is for. -/
inductive Role where
  | plain
  /-- Opens the subscription `handle`, which is closed by `unsubscribe`. -/
  | opening (handle : Nat) (unsubscribe : String)
  /-- Closes a subscription; it is given up at the deadline, which is set when it starts. -/
  | teardown (deadline : Option Nat)
  deriving DecidableEq, Inhabited

/-- How far a delivery has come. -/
inductive DeliveryStage where
  | fresh
  /-- Waits for room in the buffer of the stream `handle`. -/
  | blocked (handle : Nat)
  | done
  deriving DecidableEq, Inhabited

/-- A notification on its way to its stream. -/
structure Delivery where
  notification : Notification
  stage : DeliveryStage := .fresh
  deriving DecidableEq, Inhabited

/-- The client's end of a connection. -/
structure Link where
  capacity : Nat
  policy : Backpressure
  calls : Calls := {}
  /-- What each exchange is for. -/
  roles : List Role := []
  subscriptions : Subscriptions := {}
  streams : Table Nat Stream := []
  deliveries : List Delivery := []
  /-- The time, in milliseconds. -/
  now : Nat := 0

namespace Link

/-- A link whose streams buffer `buffer` notifications each, and at least one. -/
def ofOptions (buffer : Nat) (policy : Backpressure) : Link :=
  { capacity := max buffer 1, policy }

/-- How long a call that closes a subscription waits for its answer. -/
def teardownLimit : Nat := 10000

/-! ### Making exchanges -/

/-- Makes an exchange with a role. -/
def make (l : Link) (calls : List Call) (batched : Bool) (token : Token) (role : Role) : Link :=
  { l with calls := l.calls.make calls batched token, roles := l.roles ++ [role] }

/-- Makes a call. -/
def call (l : Link) (call : Call) (token : Token) : Link := l.make [call] false token .plain

/-- Makes a batch. -/
def batch (l : Link) (calls : List Call) (token : Token) : Link := l.make calls true token .plain

/-- Makes the call that closes a subscription. -/
def unsubscribe (l : Link) (id : SubscriptionId) (method : String) : Link :=
  l.make [⟨method, .arr [id.toJson]⟩] false .unshared (.teardown none)

/-- Tells the node that a subscription has ended, unless the connection has too. -/
def sayFarewell (l : Link) : Option (SubscriptionId × String) → Link
  | some (id, method) => if l.subscriptions.closed then l else l.unsubscribe id method
  | none => l

/-! ### Streams -/

/-- Replaces the stream `handle`. -/
def setStream (l : Link) (handle : Nat) (s : Stream) : Link :=
  { l with streams := l.streams.put handle s }

/-- Opens a subscription below the token `parent`. -/
def «open» (l : Link) (request : SubscriptionRequest) (parent : Token) : Link :=
  let handle := l.subscriptions.nextHandle
  let l := { l with subscriptions := l.subscriptions.register request.names }
  let l := if l.calls.isCancelled parent then
      { l with calls := l.calls.cancel (.stream handle) }
    else l
  if l.subscriptions.closed then
    l.setStream handle { parent, confirmation := some (.error .transportClosed) }
  else
    (l.setStream handle { parent }).make [⟨request.names.subscribe, request.params⟩] false
      (.stream handle) (.opening handle request.names.unsubscribe)

/-- Removes a subscription from the tables, and returns what the node has to be told. -/
def release (l : Link) (handle : Nat) : Option (SubscriptionId × String) × Link :=
  (l.subscriptions.farewell? handle,
    { l with subscriptions := l.subscriptions.release handle })

/-- Closes the stream `handle`, unless it is closed already. Where `telling` is false the node is
not told. -/
def closeStream (l : Link) (handle : Nat) (telling : Bool) : Link :=
  match l.streams.get? handle with
  | none => l
  | some s =>
    if s.phase = .closed then l
    else
      let l := { l with calls := l.calls.cancel (.stream handle) }
      let l := l.setStream handle { s with phase := .closed, receiving := false }
      let (farewell, l) := l.release handle
      if telling then l.sayFarewell farewell else l

/-- Closes the stream `handle`, which nobody holds any more. -/
def dropStream (l : Link) (handle : Nat) (telling : Bool) : Link :=
  let l := l.closeStream handle telling
  { l with streams := l.streams.update handle fun s => { s with receiving := false, held := false } }

/-- The deliveries that wait for room in the buffer of the stream `handle`. -/
def blockedOn (deliveries : List Delivery) (handle : Nat) : Nat :=
  deliveries.countP fun d => d.stage = .blocked handle

/-- Takes the first notification out of the buffer of the stream `handle`. The stream ends when it
is empty and nothing can come any more. -/
def take (l : Link) (handle : Nat) (s : Stream) : Polled × Link :=
  match s.buffer with
  | value :: buffer => (.item value, l.setStream handle { s with buffer })
  | [] =>
    if l.subscriptions.isOpen handle || 0 < blockedOn l.deliveries handle then
      (.pending, l.setStream handle s)
    else (.ended, l.setStream handle { s with phase := .closed })

/-- Polls the stream `handle` once. -/
def poll (l : Link) (handle : Nat) : Polled × Link :=
  match l.streams.get? handle with
  | none => (.ended, l)
  | some s =>
    if s.phase = .closed then (.ended, l)
    else if l.calls.isCancelled (.stream handle) then (.ended, l.closeStream handle true)
    else if l.subscriptions.closed then
      (.failed .transportClosed, l.setStream handle { s with phase := .closed, receiving := false })
    else
      match s.phase, s.confirmation with
      | .pending, none => (.pending, l)
      | .pending, some (.error cause) =>
        (.failed cause, l.setStream handle { s with phase := .closed })
      | .pending, some (.ok id) => l.take handle { s with phase := .active id }
      | _, _ => l.take handle s

/-! ### Answers -/

/-- What the answer to a subscribe call becomes when it is routed: the id is recorded if the
subscription is still open, and given back to the node otherwise. -/
def confirmed (l : Link) (handle : Nat) (unsubscribe : String) (outcome : Outcome) :
    Outcome × Link :=
  match outcome with
  | .error cause => (.error cause, l)
  | .ok value =>
    match SubscriptionId.ofJson? value with
    | none => (.error (.malformed (.invalidSubscriptionId value)), l)
    | some id =>
      if l.subscriptions.isOpen handle then
        (.ok value, { l with subscriptions := l.subscriptions.confirm handle id })
      else (.error .cancelled, l.sayFarewell (some (id, unsubscribe)))

/-- What the pending call `id` is for. -/
def roleOf (l : Link) (id : Nat) : Role :=
  ((l.calls.pending.get? id).bind fun entry => l.roles[entry.exchange]?).getD .plain

/-- Hands an answer to the pending call `id`. -/
def answer (l : Link) (id : Nat) (outcome : Outcome) : Link :=
  let (outcome, l) :=
    match l.roleOf id with
    | .opening handle unsubscribe => l.confirmed handle unsubscribe outcome
    | _ => (outcome, l)
  { l with calls := l.calls.answer id outcome }

/-- Hands out answers, one after the other. -/
def answerAll (l : Link) (answers : List (Nat × Outcome)) : Link :=
  answers.foldl (fun l a => l.answer a.1 a.2) l

/-- Routes a response. -/
def route (l : Link) (r : Response) : Link := l.answerAll (l.calls.answerOf r)

/-- Routes a batch of responses. -/
def routeBatch (l : Link) (responses : List Response) : Link :=
  l.answerAll (l.calls.batchAnswers responses)

/-- Routes an error without an id. -/
def reject (l : Link) (error : ErrorObject) : Link := l.answerAll (l.calls.rejectionAnswers error)

/-- Fails all calls. -/
def closeCalls (l : Link) : Link := { l with calls := l.calls.close }

/-- Ends all subscriptions. -/
def closeSubscriptions (l : Link) : Link := { l with subscriptions := l.subscriptions.close }

/-- The subscriptions below the token `t`, the newest first. -/
def below (l : Link) (t : Token) : List Nat :=
  (l.streams.filter fun p => p.2.parent = t).reverse.map (·.1)

/-- Cancels the subscription `handle` only. -/
def cancelStream (l : Link) (handle : Nat) : Link :=
  { l with calls := l.calls.cancel (.stream handle) }

/-- Cancels the token `t` but not the subscriptions below it. -/
def cancelCalls (l : Link) (t : Token) : Link := { l with calls := l.calls.cancel t }

/-- Cancels a token: first the subscriptions below it, then what it was given to itself. -/
def cancel (l : Link) (t : Token) : Link := ((l.below t).foldl cancelStream l).cancelCalls t

/-! ### Tasks -/

/-- A task of a link. -/
inductive Task where
  | exchange (k : Nat)
  | delivery (d : Nat)
  deriving DecidableEq, Inhabited

/-- Starts to deliver a notification. -/
def dispatch (l : Link) (n : Notification) : Link :=
  { l with deliveries := l.deliveries ++ [{ notification := n }] }

/-- What follows the end of the subscribe call of `handle`. -/
def opened (l : Link) (handle : Nat) (outcome : Outcome) : Link :=
  let confirmation := outcome.bind (decodeAs SubscriptionId.ofJson?)
  let l :=
    match confirmation with
    | .ok _ => l
    | .error _ =>
      let (farewell, l) := l.release handle
      l.sayFarewell farewell
  { l with streams := l.streams.update handle fun s => { s with confirmation := some confirmation } }

/-- What exchange `k` is for. -/
def roleAt (l : Link) (k : Nat) : Role := l.roles.getD k .plain

/-- Whether exchange `k` has run into its deadline. -/
def isOverdue (l : Link) (k : Nat) : Bool :=
  match l.roleAt k with
  | .teardown (some deadline) => deadline ≤ l.now
  | _ => false

/-- Sets the deadline of exchange `k`, if it has one that is not set. -/
def setDeadline (l : Link) (k : Nat) : Link :=
  match l.roleAt k with
  | .teardown none => { l with roles := l.roles.set k (.teardown (some (l.now + teardownLimit))) }
  | _ => l

/-- What follows a turn of exchange `k`. -/
def afterTurn (l : Link) (k : Nat) : Link :=
  match l.roleAt k, l.calls.exchanges[k]? with
  | .opening handle _, some x =>
    match x.outcome? with
    | some outcome => l.opened handle outcome
    | none => l
  | .teardown _, some x =>
    if x.isLive && l.isOverdue k then { l with calls := l.calls.abandon k } else l
  | _, _ => l

/-- A turn of exchange `k`. -/
def runExchange (l : Link) (k : Nat) : Link :=
  let l := l.setDeadline k
  { l with calls := l.calls.run k }.afterTurn k

/-- Replaces the stage of delivery `d`. -/
def setDelivery (l : Link) (d : Nat) (stage : DeliveryStage) : Link :=
  { l with deliveries := l.deliveries.modify d fun x => { x with stage } }

/-- Whether the buffer of the stream `handle` has room for one more while `ahead` wait. -/
def hasRoom (l : Link) (handle ahead : Nat) : Bool :=
  match l.streams.get? handle with
  | some s => s.buffer.length + ahead < l.capacity
  | none => false

/-- Whether the stream `handle` accepts deliveries. -/
def isReceiving (l : Link) (handle : Nat) : Bool :=
  match l.streams.get? handle with
  | some s => s.receiving
  | none => false

/-- Puts a notification into the buffer of the stream `handle`. -/
def enqueue (l : Link) (handle : Nat) (value : Json) : Link :=
  { l with streams := l.streams.update handle fun s => { s with buffer := s.buffer ++ [value] } }

/-- Delivers to the stream `handle` if it has room while `ahead` wait. -/
def deliver (l : Link) (d : Nat) (handle ahead : Nat) (value : Json) : Link :=
  if !l.isReceiving handle then l.setDelivery d .done
  else if l.hasRoom handle ahead then (l.enqueue handle value).setDelivery d .done
  else
    match l.policy with
    | .pauseReads => l.setDelivery d (.blocked handle)
    | .dropNewest => l.setDelivery d .done

/-- A turn of delivery `d`. -/
def runDelivery (l : Link) (d : Nat) : Link :=
  match l.deliveries[d]? with
  | none => l
  | some x =>
    match x.stage with
    | .fresh =>
      match l.subscriptions.target? x.notification with
      | some handle => l.deliver d handle (blockedOn l.deliveries handle) x.notification.result
      | none => l.setDelivery d .done
    | .blocked handle =>
      l.deliver d handle (blockedOn (l.deliveries.take d) handle) x.notification.result
    | .done => l

/-- Gives up a task. -/
def drop (l : Link) : Task → Link
  | .exchange k => { l with calls := l.calls.abandon k }
  | .delivery d => l.setDelivery d .done

/-- Whether a task can run. -/
def canRun (l : Link) : Task → Bool
  | .exchange k =>
    l.calls.canRun k
      || (l.isOverdue k && ((l.calls.exchanges[k]?).map Exchange.isLive).getD false)
  | .delivery d =>
    match l.deliveries[d]? with
    | none => false
    | some x =>
      match x.stage with
      | .fresh => true
      | .blocked handle =>
        !l.isReceiving handle || l.hasRoom handle (blockedOn (l.deliveries.take d) handle)
      | .done => false

/-- A turn of a task, if it can run. -/
def run (l : Link) (t : Task) : Link :=
  if l.canRun t then
    match t with
    | .exchange k => l.runExchange k
    | .delivery d => l.runDelivery d
  else l

/-- All tasks, exchanges first, in the order in which they were made. -/
def tasks (l : Link) : List Task :=
  (List.range l.calls.exchanges.length).map .exchange
    ++ (List.range l.deliveries.length).map .delivery

/-- The tasks that can run. -/
def enabled (l : Link) : List Task := l.tasks.filter l.canRun

/-- The link with its tasks. A task takes at most three turns, and a turn makes at most one more
task, which makes none. -/
def machine : Machine Link Task where
  enabled := enabled
  run := run
  effort l := 8 * (l.tasks.length + 1)

end Link

end NodeRpc
