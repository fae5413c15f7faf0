import NodeRpc.Client.Basic

/-!
# What a client asks

A question is a call together with how its answer is read. A client passes parameters and results
through its registry, and fills in its commitment where an option leaves it open.
-/

namespace NodeRpc

/-- A call, and how its outcome is read. -/
structure Question (α : Type) where
  call : Call
  read : Outcome → Except CallError α

/-- The same question, with `f` applied to what is read. -/
def Question.map {α β : Type} (f : α → β) (q : Question α) : Question β :=
  ⟨q.call, fun outcome => (q.read outcome).map f⟩

namespace Client

/-- Asks for `method`, whose result is read by `decode`. -/
def ask {α : Type} (c : Client) (decode : Json → Option α) (method : String) (params : Json) :
    Question α where
  call := ⟨method, c.registry.transformParams method params⟩
  read outcome := outcome.bind fun v => decodeAs decode (c.registry.transformResponse method v)

/-- The calls of a batch as they go to the node. -/
def batchCalls (c : Client) (calls : List Call) : List Call :=
  calls.map fun q => { q with params := c.registry.transformParams q.method q.params }

/-- The results of a batch as they go to the caller. -/
def batchResults (c : Client) (calls : List Call) (results : List Outcome) : List Outcome :=
  List.zipWith (fun o q => o.map (c.registry.transformResponse q.method)) results calls

/-- The options that say no more than the commitment. -/
def commitmentOnly (c : Client) : Json := .obj [("commitment", c.commitment.toJson)]

/-- Asks for an account. -/
def accountInfo (c : Client) (address : String) (o : AccountOptions) :
    Question (AtSlot (Option Json)) :=
  c.ask (AtSlot.ofJson? (Json.optional some)) "getAccountInfo"
    (.arr [.str address, (o.normalized c.commitment).toJson])

/-- Asks for several accounts. -/
def multipleAccounts (c : Client) (addresses : List String) (o : AccountOptions) :
    Question (AtSlot (List (Option Json))) :=
  c.ask (AtSlot.ofJson? (Json.required (Json.list? (Json.nullable some)))) "getMultipleAccounts"
    (.arr [.arr (addresses.map .str), (o.normalized c.commitment).toJson])

/-- Asks for a transaction. -/
def transaction (c : Client) (signature : String) (o : TransactionOptions) :
    Question (Option Json) :=
  c.ask (Json.nullable some) "getTransaction"
    (.arr [.str signature, (o.normalized c.commitment).toJson])

/-- Asks for a block. -/
def block (c : Client) (slot : Nat) (o : BlockOptions) : Question (Option Json) :=
  c.ask (Json.nullable some) "getBlock" (.arr [.ofNat slot, (o.normalized c.commitment).toJson])

/-- Asks for the slot that the node has reached. -/
def slot (c : Client) : Question Nat := c.ask Json.nat? "getSlot" (.arr [c.commitmentOnly])

/-- Subscribes to the changes of an account. -/
def accountNotifications (c : Client) (address : String) (o : AccountOptions) :
    SubscriptionRequest :=
  c.registry.subscription "accountNotifications"
    (.arr [.str address, (o.normalized c.commitment).toJson])

/-- Subscribes to the slots that the node reaches. -/
def slotNotifications (c : Client) : SubscriptionRequest :=
  c.registry.subscription "slotNotifications" (.arr [])

/-- Subscribes to the status of a signature. -/
def signatureNotifications (c : Client) (signature : String) : SubscriptionRequest :=
  c.registry.subscription "signatureNotifications" (.arr [.str signature, c.commitmentOnly])

/-- Subscribes to the logs that match a filter. -/
def logsNotifications (c : Client) (filter : Json) : SubscriptionRequest :=
  c.registry.subscription "logsNotifications" (.arr [filter, c.commitmentOnly])

/-- A payload of the subscription opened by `request`, as it goes to the consumer. -/
def readItem {α : Type} (c : Client) (decode : Json → Option α) (request : SubscriptionRequest)
    (v : Json) : Except CallError α :=
  decodeAs decode (c.registry.transformResponse request.names.notification v)

end Client

end NodeRpc
