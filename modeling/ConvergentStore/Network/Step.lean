import ConvergentStore.Network.State

/-!
# Steps of a network

What a user does at the nodes of a network, step by step. After each step
everything that was published is delivered.
-/

namespace ConvergentStore.Network

/-- What a user does at a node. -/
inductive Action where
  | change (change : Change)
  | inbound (message : Message)
  | read (family : Family) (key : String)
  | listen
  | publish (outbound : Outbound)
  | subscribe (filter : Filter)
  | stop

/-- What a user does with a network. -/
inductive Step where
  | act (position : Nat) (action : Action)
  | setClock (millis : Binary64)

/-- What a step answers. -/
inductive Answer where
  | published (result : Except Fault String)
  | arrival (result : Except Fault Arrival)
  | reading (reading : Replica.Reading)
  | subscribed (number : Nat)
  | stopped (count : Nat)
  | done
  /-- The node is not there or does no such thing. -/
  | impossible

/-- A change at a replica: applied there, and published if it is not refused. -/
def change (network : Network) (position : Nat) (node : Node) (host : Host)
    (change : Change) : Except Fault String × Network × List Event :=
  let operation := change.toOperation network.clock
  match host.replica.apply operation with
  | .error refusal => (.error (.refused refusal), network, [])
  | .ok replica =>
      let network := network.setHost position { host with replica }
      match host.profile.prepare operation with
      | .error fault => (.error fault, network, [])
      | .ok outbound =>
          let (id, network) := network.publish node outbound
          (.ok id, network, [.published operation id])

/-- A node that closes its subscriptions, and how many they were. -/
def stop (network : Network) (node : Node) : Answer × Network :=
  (.stopped (network.hub.subscriptionsOf node.endpoint).length, network.unsubscribe node)

/-- What a user does at a replica. -/
def atReplica (network : Network) (position : Nat) (node : Node) (host : Host) :
    Action → Answer × Network × List Event
  | .change change =>
      let (result, network, events) := network.change position node host change
      (.published result, network, events)
  | .inbound message =>
      match host.profile.ingest message host.replica with
      | .ok (arrival, replica) =>
          (.arrival (.ok arrival), network.setHost position { host with replica },
            arrival.events message.id)
      | .error fault => (.arrival (.error fault), network, [])
  | .read family key => (.reading (host.replica.read family key), network, [])
  | .listen =>
      let network := network.subscribe node host.profile.filter
      (.done,
        network.setHost position { host with listeners := host.listeners ++ [.attentive] },
        [.listening])
  | .stop =>
      let (answer, network) := network.stop node
      (answer, network.setHost position { host with listeners := [] }, [])
  | .publish _ | .subscribe _ => (.impossible, network, [])

/-- What a user does at an observer. -/
def atObserver (network : Network) (node : Node) : Action → Answer × Network
  | .publish outbound =>
      let (id, network) := network.publish node outbound
      (.published (.ok id), network)
  | .subscribe filter =>
      (.subscribed (network.hub.subscriptionsOf node.endpoint).length,
        network.subscribe node filter)
  | .stop => network.stop node
  | .change _ | .inbound _ | .read .. | .listen => (.impossible, network)

/-- An action at a node, before anything is delivered, with what the node notes. -/
def act (network : Network) (position : Nat) (action : Action) :
    Answer × Network × List Event :=
  match network.nodes[position]? with
  | none => (.impossible, network, [])
  | some node =>
      match node.member with
      | .host host => network.atReplica position node host action
      | .observer =>
          let (answer, network) := network.atObserver node action
          (answer, network, [])

/-- What a step answered, and what each node made of it. -/
structure Report where
  answer : Answer
  receipts : List Receipt

/-- A receipt with events that were noted before anything was delivered. -/
def Receipt.preceded (events : List Event) : Receipt → Receipt
  | .replica state later => .replica state (events ++ later)
  | .observer received => .observer received

/-- One step, with everything delivered. -/
def step (network : Network) : Step → Report × Network
  | .act position action =>
      let (answer, network, events) := network.act position action
      let (network, receipts) := network.settle
      (⟨answer, receipts.modify position (Receipt.preceded events)⟩, network)
  | .setClock millis =>
      let (network, receipts) := { network with clock := millis }.settle
      (⟨.done, receipts⟩, network)

/-- Steps in turn, with a report for each. -/
def run : List Step → Network → List Report
  | [], _ => []
  | first :: rest, network =>
      let (report, network) := network.step first
      report :: run rest network

end ConvergentStore.Network
