import ConvergentStore.Channel.Hub
import ConvergentStore.Replica.Exchange

/-!
# Networks

Replicas and observers on one hub. A replica has a listener for each of its
subscriptions. An observer is an endpoint that publishes what it is told to and
shows what it receives. A network moves in small moves: a local change, a
publication, a subscription, a delivery.
-/

namespace ConvergentStore

/-- A replica at an endpoint, with the listeners of its subscriptions in their order. -/
structure Host where
  profile : Profile
  replica : Replica
  listeners : List Listener

/-- Who stands behind an endpoint. -/
inductive Member where
  | host (host : Host)
  | observer

/-- An endpoint of a hub, with the name it publishes under. -/
structure Node where
  endpoint : Nat
  sender : String
  member : Member

/-- Nodes on one hub, under one clock. -/
structure Network where
  hub : Hub
  clock : Binary64
  nodes : List Node

namespace Network

/-! ## Building -/

/-- Who a new node is to be. -/
inductive Newcomer where
  | replica (sender : String) (profile : Profile)
  | observer (sender : String)

/-- The name that a new node publishes under. -/
def Newcomer.sender : Newcomer → String
  | .replica sender _ => sender
  | .observer sender => sender

/-- The member that a newcomer becomes. -/
def Newcomer.member : Newcomer → Member
  | .replica _ profile => .host ⟨profile, .empty, []⟩
  | .observer _ => .observer

/-- The network without nodes. -/
def empty (clock : Binary64) : Network := ⟨.empty, clock, []⟩

/-- The network with one more node. -/
def join (network : Network) (newcomer : Newcomer) : Network :=
  let (endpoint, hub) := network.hub.join
  { network with
    hub
    nodes := network.nodes ++ [⟨endpoint, newcomer.sender, newcomer.member⟩] }

/-- The network of some newcomers, joined in turn. -/
def ofNewcomers (clock : Binary64) (newcomers : List Newcomer) : Network :=
  newcomers.foldl join (empty clock)

/-! ## Moves -/

/-- The network with another host behind one of its nodes. -/
def setHost (network : Network) (position : Nat) (host : Host) : Network :=
  { network with
    nodes := network.nodes.modify position fun node => { node with member := .host host } }

/-- A publication of a node: its identifier, and the network after it. -/
def publish (network : Network) (node : Node) (outbound : Outbound) : String × Network :=
  let (id, hub) := network.hub.publish node.endpoint node.sender outbound
  (id, { network with hub })

/-- The network with one more subscription of a node. -/
def subscribe (network : Network) (node : Node) (filter : Filter) : Network :=
  { network with hub := network.hub.subscribe node.endpoint filter }

/-- The network without the subscriptions of a node. -/
def unsubscribe (network : Network) (node : Node) : Network :=
  { network with hub := network.hub.unsubscribe node.endpoint }

/-- The messages that a node has in store, for each of its subscriptions. -/
def waiting (network : Network) (node : Node) : List (List Message) :=
  (network.hub.subscriptionsOf node.endpoint).map (·.waiting)

/-! ## Delivery -/

/-- What a node makes of what was delivered to it. -/
inductive Receipt where
  | replica (state : Replica) (events : List Event)
  | observer (received : List (List Message))

/-- A host after listeners, in turn, have heard what is delivered to them, and what is noted. -/
def hearAll (profile : Profile) : List (Listener × List Message) → Replica → Host × List Event
  | [], replica => (⟨profile, replica, []⟩, [])
  | (listener, messages) :: rest, replica =>
      let hearing := profile.hear listener messages replica
      let (host, events) := hearAll profile rest hearing.replica
      ({ host with listeners := hearing.listener :: host.listeners },
        hearing.events ++ events)

/-- A node after all it has in store is delivered, and what it makes of it. -/
def receive (network : Network) (node : Node) : Node × Receipt :=
  match node.member with
  | .host host =>
      let deliveries := host.listeners.zip (network.waiting node)
      let (host, events) := hearAll host.profile deliveries host.replica
      ({ node with member := .host host }, .replica host.replica events)
  | .observer => (node, .observer (network.waiting node))

/-- The network after everything in store is delivered, and what each node makes of it. -/
def settle (network : Network) : Network × List Receipt :=
  let received := network.nodes.map network.receive
  ({ network with hub := network.hub.drained, nodes := received.map (·.1) },
    received.map (·.2))

end Network

end ConvergentStore
