import ConvergentStore.Network.Step

/-!
# Traffic on a network

A network whose work is taken apart as far as it goes. A change is applied at
its node and published later, if anything from another node comes in between;
what is published waits in the queue of each subscription and is delivered from
there one by one. `change_eq` says that a change of the network is two moves of
its traffic.
-/

namespace ConvergentStore

/-! ## Delivery -/

namespace Node

/-- A node after one of its listeners, known by its number, has heard messages. -/
def hear (number : Nat) (messages : List Message) (node : Node) : Node :=
  match node.member with
  | .observer => node
  | .host host =>
      match host.listeners[number]? with
      | none => node
      | some listener =>
          let hearing := host.profile.hear listener messages host.replica
          { node with
            member := .host
              { host with
                replica := hearing.replica
                listeners := host.listeners.set number hearing.listener } }

end Node

namespace Network

/-- The host at a position, with its node. -/
def hostAt? (network : Network) (position : Nat) : Option (Node × Host) :=
  match network.nodes[position]? with
  | some node =>
      match node.member with
      | .host host => some (node, host)
      | .observer => none
  | none => none

/-- The number of a subscription among those of its endpoint. -/
def numberOf (network : Network) (index : Nat) (subscription : Subscription) : Nat :=
  ((network.hub.subscriptions.take index).filter
    (·.endpoint == subscription.endpoint)).length

/-- The network after the next publication in the queue of a subscription is delivered. -/
def deliver (index : Nat) (network : Network) : Network :=
  match network.hub.subscriptions[index]? with
  | none => network
  | some subscription =>
      match subscription.next? with
      | none => network
      | some (message?, rest) =>
          { network with
            hub :=
              { network.hub with subscriptions := network.hub.subscriptions.set index rest }
            nodes := network.nodes.map fun node =>
              if node.endpoint = subscription.endpoint then
                node.hear (network.numberOf index subscription) message?.toList
              else node }

/-- The network after the nodes at some positions have opened subscriptions, in turn. -/
def opened (positions : List Nat) (network : Network) : Network :=
  positions.foldl (fun network position => (network.act position .listen).2.1) network

end Network

/-! ## Moves -/

/-- An operation that was applied at a position and is still to be published. -/
structure Ticket where
  position : Nat
  operation : Operation

/-- A network with the changes in flight on it, and the operations accepted so far. -/
structure Traffic where
  network : Network
  tickets : List Ticket
  accepted : List Operation

namespace Traffic

/-- The traffic before the first change. -/
def start (network : Network) : Traffic :=
  ⟨network, [], []⟩

/-- An operation is applied at a position, unless it is refused there. -/
def apply (position : Nat) (operation : Operation) (traffic : Traffic) : Traffic :=
  match traffic.network.hostAt? position with
  | none => traffic
  | some (_, host) =>
      match host.replica.apply operation with
      | .error _ => traffic
      | .ok replica =>
          { network := traffic.network.setHost position { host with replica }
            tickets := traffic.tickets ++ [⟨position, operation⟩]
            accepted := traffic.accepted ++ [operation] }

/-- One of the operations in flight is published, or given up if it cannot be prepared. -/
def publish (index : Nat) (traffic : Traffic) : Traffic :=
  match traffic.tickets[index]? with
  | none => traffic
  | some ticket =>
      match traffic.network.hostAt? ticket.position with
      | none => traffic
      | some (node, host) =>
          let tickets := traffic.tickets.eraseIdx index
          match host.profile.prepare ticket.operation with
          | .error _ => { traffic with tickets }
          | .ok outbound =>
              { traffic with network := (traffic.network.publish node outbound).2, tickets }

/-- What happens on a network, one thing at a time. -/
inductive Move where
  | apply (position : Nat) (operation : Operation)
  | publish (ticket : Nat)
  | deliver (subscription : Nat)
  | setClock (millis : Binary64)

/-- The traffic after a move; a move that is not possible changes nothing. -/
def move (traffic : Traffic) : Move → Traffic
  | .apply position operation => traffic.apply position operation
  | .publish ticket => traffic.publish ticket
  | .deliver subscription =>
      { traffic with network := traffic.network.deliver subscription }
  | .setClock millis => { traffic with network := { traffic.network with clock := millis } }

/-- The traffic after moves in turn. -/
def run (moves : List Move) (traffic : Traffic) : Traffic :=
  moves.foldl move traffic

/-- Traffic is idle when no change is in flight and no subscription has anything in its queue. -/
def Idle (traffic : Traffic) : Prop :=
  traffic.tickets = [] ∧
    ∀ subscription ∈ traffic.network.hub.subscriptions, subscription.queue = []

instance (traffic : Traffic) : Decidable traffic.Idle :=
  inferInstanceAs (Decidable (_ ∧ _))

/-- No move adds a node to the network or removes one. -/
theorem length_nodes_run
    (moves : List Move)
    (traffic : Traffic) :
    (traffic.run moves).network.nodes.length = traffic.network.nodes.length := by
  induction moves generalizing traffic with
  | nil => rfl
  | cons first rest ih =>
      have step : (traffic.move first).network.nodes.length =
          traffic.network.nodes.length := by
        cases first with
        | apply position operation =>
            simp only [move, apply]
            split
            · rfl
            · split
              · rfl
              · exact List.length_modify ..
        | publish ticket =>
            simp only [move, publish]
            split
            · rfl
            · split
              · rfl
              · split <;> rfl
        | deliver subscription =>
            simp only [move, Network.deliver]
            split
            · rfl
            · split
              · rfl
              · exact List.length_map ..
        | setClock millis => rfl
      exact (ih _).trans step

end Traffic

/-! ## Changes as moves -/

namespace Network

theorem hostAt?_eq
    {network : Network}
    {position : Nat}
    {node : Node}
    {host : Host}
    (seat : network.nodes[position]? = some node)
    (member : node.member = .host host) :
    network.hostAt? position = some (node, host) := by
  simp [hostAt?, seat, member]

theorem of_hostAt?
    {network : Network}
    {position : Nat}
    {node : Node}
    {host : Host}
    (found : network.hostAt? position = some (node, host)) :
    network.nodes[position]? = some node ∧ node.member = .host host := by
  rw [hostAt?] at found
  split at found
  · next other seat =>
      split at found
      · next inner member =>
          cases found
          exact ⟨seat, member⟩
      · cases found
  · cases found

theorem getElem?_setHost
    (network : Network)
    (position : Nat)
    (host : Host)
    (other : Nat) :
    (network.setHost position host).nodes[other]? =
      (network.nodes[other]?).map fun node =>
        if position = other then { node with member := .host host } else node := by
  simp only [setHost, List.getElem?_modify]
  rfl

theorem hostAt?_setHost
    {network : Network}
    {position : Nat}
    {node : Node}
    (seat : network.nodes[position]? = some node)
    (host : Host) :
    (network.setHost position host).hostAt? position =
      some ({ node with member := .host host }, host) := by
  apply hostAt?_eq
  · simp [getElem?_setHost, seat]
  · rfl

end Network

namespace Traffic

/-- A change of a network is applied and published with nothing in between. -/
theorem change_eq
    {traffic : Traffic}
    {position : Nat}
    {node : Node}
    {host : Host}
    (nothing : traffic.tickets = [])
    (seat : traffic.network.nodes[position]? = some node)
    (member : node.member = .host host)
    (change : Change) :
    let after := traffic.run
      [.apply position (change.toOperation traffic.network.clock), .publish 0]
    (traffic.network.change position node host change).2.1 = after.network ∧
      after.tickets = [] := by
  have found := Network.hostAt?_eq seat member
  simp only [Network.change, run, List.foldl_cons, List.foldl_nil, move, apply, found, nothing]
  cases applied : host.replica.apply (change.toOperation traffic.network.clock) with
  | error refusal => simp [publish, nothing]
  | ok replica =>
      have later := Network.hostAt?_setHost seat { host with replica }
      simp only [publish, List.nil_append, List.getElem?_cons_zero, later]
      cases prepared : host.profile.prepare (change.toOperation traffic.network.clock) with
      | error fault => exact ⟨rfl, rfl⟩
      | ok outbound => exact ⟨rfl, rfl⟩

end Traffic

end ConvergentStore
