import ConvergentStore.Channel.Message

/-!
# Hubs

A channel inside one process. Endpoints join a hub, publish on it and
subscribe to it. Every publication is put into the queue of every open
subscription; a subscription passes over what its own endpoint published and
what its filter does not let through. One sequence of numbers counts both
endpoints and publications.
-/

namespace ConvergentStore

/-- A publication on its way, with the endpoint it came from. -/
structure Delivery where
  endpoint : Nat
  message : Message
  deriving DecidableEq

/-- An open subscription of an endpoint, with what has not been received yet. -/
structure Subscription where
  endpoint : Nat
  filter : Filter
  queue : List Delivery
  deriving DecidableEq

namespace Subscription

/-- Whether a subscription receives a publication. -/
def receives (subscription : Subscription) (delivery : Delivery) : Bool :=
  delivery.endpoint != subscription.endpoint && subscription.filter.admits delivery.message

/-- The messages that a subscription has in store. -/
def waiting (subscription : Subscription) : List Message :=
  (subscription.queue.filter subscription.receives).map (·.message)

/-- The subscription once all it had in store is received. -/
def drained (subscription : Subscription) : Subscription :=
  { subscription with queue := [] }

/--
The next publication in the queue, as a message if it is received, and the
subscription after it.
-/
def next? (subscription : Subscription) : Option (Option Message × Subscription) :=
  match subscription.queue with
  | [] => none
  | delivery :: rest =>
      let message? := if subscription.receives delivery then some delivery.message else none
      some (message?, { subscription with queue := rest })

end Subscription

/-- A channel inside one process. -/
structure Hub where
  /-- The number given out last. -/
  sequence : Nat
  /-- The open subscriptions, in the order in which they were opened. -/
  subscriptions : List Subscription
  deriving DecidableEq

namespace Hub

/-- The hub without endpoints. -/
def empty : Hub := ⟨0, []⟩

/-- A new endpoint, and the hub with it. -/
def join (hub : Hub) : Nat × Hub :=
  (hub.sequence + 1, { hub with sequence := hub.sequence + 1 })

/-- The hub with one more subscription of an endpoint. -/
def subscribe (hub : Hub) (endpoint : Nat) (filter : Filter) : Hub :=
  { hub with subscriptions := hub.subscriptions ++ [⟨endpoint, filter, []⟩] }

/-- The identifier of the next publication of a sender. -/
def nextId (hub : Hub) (sender : String) : String :=
  sender ++ "-" ++ Nat.repr (hub.sequence + 1)

/-- A publication of an endpoint under a sender's name: its identifier, and the hub after it. -/
def publish (hub : Hub) (endpoint : Nat) (sender : String) (outbound : Outbound) :
    String × Hub :=
  let id := hub.nextId sender
  let delivery : Delivery := ⟨endpoint, outbound.toMessage id sender⟩
  (id,
    { sequence := hub.sequence + 1
      subscriptions := hub.subscriptions.map fun subscription =>
        { subscription with queue := subscription.queue ++ [delivery] } })

/-- The subscriptions of an endpoint. -/
def subscriptionsOf (hub : Hub) (endpoint : Nat) : List Subscription :=
  hub.subscriptions.filter (·.endpoint == endpoint)

/-- The hub without the subscriptions of an endpoint. -/
def unsubscribe (hub : Hub) (endpoint : Nat) : Hub :=
  { hub with subscriptions := hub.subscriptions.filter (·.endpoint != endpoint) }

/-- The hub once every subscription is drained. -/
def drained (hub : Hub) : Hub :=
  { hub with subscriptions := hub.subscriptions.map (·.drained) }

end Hub

end ConvergentStore
