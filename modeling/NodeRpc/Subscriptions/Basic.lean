import NodeRpc.Backpressure
import NodeRpc.Registry
import NodeRpc.Frame.Basic
import NodeRpc.Table

/-!
# Open subscriptions of a connection

Every subscription has a local handle, and, once the node has confirmed it, an id of the node's. A
registration belongs to a handle; a route leads from an id to a handle, so that a notification finds
its subscription.
-/

namespace NodeRpc

/-- What is kept of an open subscription. -/
structure Registration where
  /-- The method that closes it. -/
  unsubscribe : String
  /-- The tag of its notifications. -/
  notification : String
  serverId : Option SubscriptionId := none
  deriving DecidableEq, Inhabited

/-- The registrations and routes of a connection. -/
structure Subscriptions where
  registrations : Table Nat Registration := []
  routes : Table SubscriptionId Nat := []
  closed : Bool := false
  nextHandle : Nat := 1
  deriving DecidableEq, Inhabited

namespace Subscriptions

/-- Takes a handle, and registers it unless the connection is closed. -/
def register (s : Subscriptions) (names : SubscriptionNames) : Subscriptions :=
  let taken := { s with nextHandle := s.nextHandle + 1 }
  if s.closed then taken
  else
    { taken with
      registrations := s.registrations.put s.nextHandle ⟨names.unsubscribe, names.notification, none⟩ }

/-- Whether a handle is registered. -/
def isOpen (s : Subscriptions) (handle : Nat) : Bool := s.registrations.has handle

/-- Records the id that the node gave to a registered handle, and routes it there. -/
def confirm (s : Subscriptions) (handle : Nat) (id : SubscriptionId) : Subscriptions :=
  match s.registrations.get? handle with
  | some r =>
    { s with
      registrations := s.registrations.put handle { r with serverId := some id }
      routes := s.routes.put id handle }
  | none => s

/-- What the node has to be told once a handle is released: the id, and the method to call with
it. -/
def farewell? (s : Subscriptions) (handle : Nat) : Option (SubscriptionId × String) :=
  (s.registrations.get? handle).bind fun r => r.serverId.map fun id => (id, r.unsubscribe)

/-- Removes a handle and the route of its id. -/
def release (s : Subscriptions) (handle : Nat) : Subscriptions :=
  { s with
    registrations := s.registrations.erase handle
    routes := match s.farewell? handle with
      | some (id, _) => s.routes.erase id
      | none => s.routes }

/-- The handle that a notification goes to: the one that its id leads to, if the tag is right. -/
def target? (s : Subscriptions) (n : Notification) : Option Nat :=
  match s.routes.get? n.subscription with
  | none => none
  | some handle =>
    match s.registrations.get? handle with
    | some r => if r.notification = n.method then some handle else none
    | none => none

/-- Removes everything, for good. -/
def close (s : Subscriptions) : Subscriptions :=
  { s with registrations := [], routes := [], closed := true }

/-- How many subscriptions the node has confirmed. -/
def active (s : Subscriptions) : Nat := s.routes.length

end Subscriptions

end NodeRpc
