import NodeRpc.Json.Basic

/-!
# Registered methods and subscriptions

A registry holds, per method, what is done to its parameters before a call and to its result after
it, and, per subscription, the names used on the wire. Where nothing is registered values pass
unchanged, and names are derived: `xNotifications` is opened by `xSubscribe`, closed by
`xUnsubscribe`, and its notifications are tagged `xNotification`.
-/

namespace NodeRpc

/-- A change of a value on its way to or from the node. -/
abbrev Transform := Json → Json

/-- The names of a subscription on the wire. -/
structure SubscriptionNames where
  subscribe : String
  unsubscribe : String
  notification : String
  deriving DecidableEq, Inhabited

/-- What remains of `cs` without `ending`, if it ends so. -/
def dropEnding (ending cs : List Char) : List Char :=
  if ending.isSuffixOf cs then cs.take (cs.length - ending.length) else cs

/-- The names derived from the name of the notifications. -/
def SubscriptionNames.derive (name : String) : SubscriptionNames :=
  let stem := String.ofList (dropEnding "Notifications".toList name.toList)
  ⟨stem ++ "Subscribe", stem ++ "Unsubscribe", stem ++ "Notification"⟩

/-- What is needed to open a subscription, and to close it again. -/
structure SubscriptionRequest where
  names : SubscriptionNames
  params : Json
  deriving DecidableEq, Inhabited

/-- The transforms of one method. -/
structure Transforms where
  params : Option Transform := none
  response : Option Transform := none

/-- The registered transforms and names. -/
structure Registry where
  methods : Table String Transforms := []
  subscriptions : Table String SubscriptionNames := []

namespace Registry

/-- What is registered for a method. -/
def transforms (r : Registry) (method : String) : Transforms := (r.methods.get? method).getD {}

/-- Transforms the parameters of `method` by `f` from now on. -/
def withParams (r : Registry) (method : String) (f : Transform) : Registry :=
  { r with methods := r.methods.put method { r.transforms method with params := some f } }

/-- Transforms the results of `method` by `f` from now on. -/
def withResponse (r : Registry) (method : String) (f : Transform) : Registry :=
  { r with methods := r.methods.put method { r.transforms method with response := some f } }

/-- Uses `names` for the subscription `name` from now on. -/
def withNames (r : Registry) (name : String) (names : SubscriptionNames) : Registry :=
  { r with subscriptions := r.subscriptions.put name names }

/-- The parameters as they go to the node. -/
def transformParams (r : Registry) (method : String) (params : Json) : Json :=
  ((r.transforms method).params.getD id) params

/-- The transform of results of `method`, if there is one. -/
def responseTransform? (r : Registry) (method : String) : Option Transform :=
  (r.transforms method).response

/-- The result as it goes to the caller. -/
def transformResponse (r : Registry) (method : String) (result : Json) : Json :=
  ((r.responseTransform? method).getD id) result

@[simp] theorem transformParams_empty (method : String) (params : Json) :
    ({} : Registry).transformParams method params = params := rfl

@[simp] theorem transformResponse_empty (method : String) (result : Json) :
    ({} : Registry).transformResponse method result = result := rfl

/-- The names of a subscription. -/
def names (r : Registry) (name : String) : SubscriptionNames :=
  (r.subscriptions.get? name).getD (.derive name)

/-- The request that opens the subscription `name`; the parameters are transformed as those of its
subscribe method. -/
def subscription (r : Registry) (name : String) (params : Json) : SubscriptionRequest :=
  let names := r.names name
  ⟨names, r.transformParams names.subscribe params⟩

end Registry

end NodeRpc
