import ConvergentStore.Proofs.Network.Convergence
import ConvergentStore.Proofs.Replica.Feed

/-!
# Settling

A network settles by delivering all that it has in store at once. Deliveries
one by one, queue after queue, come to the same. So the steps of a network are
moves of its traffic, and what holds of every traffic holds of the network that
a user steps through.
-/

namespace ConvergentStore

/-! ## Hearing in parts -/

namespace Profile

/-- A listener may hear messages in two parts. -/
theorem hear_append
    (profile : Profile)
    (listener : Listener)
    (left right : List Message)
    (replica : Replica) :
    let first := profile.hear listener left replica
    let second := profile.hear first.listener right first.replica
    (profile.hear listener (left ++ right) replica).replica = second.replica ∧
      (profile.hear listener (left ++ right) replica).listener = second.listener := by
  cases listener with
  | broken => exact ⟨rfl, rfl⟩
  | attentive =>
      simp only [hear, absorbAll_append]
      cases heard : (profile.absorbAll left replica).listener with
      | attentive => exact ⟨rfl, rfl⟩
      | broken => exact ⟨rfl, heard⟩

theorem hear_nil
    (profile : Profile)
    (listener : Listener)
    (replica : Replica) :
    profile.hear listener [] replica = ⟨listener, replica, []⟩ := by
  cases listener <;> rfl

end Profile

namespace Node

theorem hear_of_member
    {node : Node}
    {host : Host}
    {number : Nat}
    {listener : Listener}
    (member : node.member = .host host)
    (found : host.listeners[number]? = some listener)
    (messages : List Message) :
    let hearing := host.profile.hear listener messages host.replica
    node.hear number messages =
      { node with
        member := .host
          ⟨host.profile, hearing.replica, host.listeners.set number hearing.listener⟩ } := by
  simp only [hear, member, found]

theorem hear_of_length_le
    {node : Node}
    {host : Host}
    {number : Nat}
    (member : node.member = .host host)
    (few : host.listeners.length ≤ number)
    (messages : List Message) :
    node.hear number messages = node := by
  simp only [hear, member, List.getElem?_eq_none few]

theorem hear_of_observer
    {node : Node}
    (member : node.member = .observer)
    (number : Nat)
    (messages : List Message) :
    node.hear number messages = node := by
  simp only [hear, member]

@[simp]
theorem hear_nil (number : Nat) (node : Node) : node.hear number [] = node := by
  cases member : node.member with
  | observer => exact hear_of_observer member number []
  | host host =>
      rcases Nat.lt_or_ge number host.listeners.length with within | few
      · rw [hear_of_member member (List.getElem?_eq_getElem within), Profile.hear_nil,
          List.set_getElem_self, ← member]
      · exact hear_of_length_le member few []

/-- A node may hear messages in two parts. -/
theorem hear_append
    (number : Nat)
    (left right : List Message)
    (node : Node) :
    node.hear number (left ++ right) = (node.hear number left).hear number right := by
  cases member : node.member with
  | observer => simp only [hear_of_observer member]
  | host host =>
      rcases Nat.lt_or_ge number host.listeners.length with within | few
      · have found := List.getElem?_eq_getElem within
        obtain ⟨replica, listener⟩ := host.profile.hear_append host.listeners[number] left right
          host.replica
        have later :
            (host.listeners.set number
                (host.profile.hear host.listeners[number] left host.replica).listener)[number]? =
              some (host.profile.hear host.listeners[number] left host.replica).listener :=
          List.getElem?_set_self within
        rw [hear_of_member member found, hear_of_member member found, hear_of_member rfl later,
          replica, listener, List.set_set]
      · simp only [hear_of_length_le member few]

/-- A node after its listeners, from the one of a number on, have heard messages, each its own. -/
def hearEach (number : Nat) : List (List Message) → Node → Node
  | [], node => node
  | messages :: rest, node => (node.hear number messages).hearEach (number + 1) rest

theorem hearEach_of_observer
    {node : Node}
    (member : node.member = .observer)
    (number : Nat)
    (stores : List (List Message)) :
    node.hearEach number stores = node := by
  induction stores generalizing number with
  | nil => rfl
  | cons messages rest ih => rw [hearEach, hear_of_observer member, ih]

theorem hearEach_of_length_le
    {node : Node}
    {host : Host}
    {number : Nat}
    (member : node.member = .host host)
    (few : host.listeners.length ≤ number)
    (stores : List (List Message)) :
    node.hearEach number stores = node := by
  induction stores generalizing number with
  | nil => rfl
  | cons messages rest ih => rw [hearEach, hear_of_length_le member few, ih (by omega)]

/-- Listeners that hear one by one are left as listeners that hear all at once. -/
theorem hearEach_eq
    {node : Node}
    {profile : Profile}
    {replica : Replica}
    {before listeners : List Listener}
    {stores : List (List Message)}
    (member : node.member = .host ⟨profile, replica, before ++ listeners⟩)
    (enough : listeners.length ≤ stores.length) :
    let host := (Network.hearAll profile (listeners.zip stores) replica).1
    node.hearEach before.length stores =
      { node with member := .host { host with listeners := before ++ host.listeners } } := by
  induction listeners generalizing node replica before stores with
  | nil =>
      rw [hearEach_of_length_le member (by simp)]
      show node = { node with member := .host ⟨profile, replica, before ++ []⟩ }
      rw [← member]
  | cons listener later ih =>
      cases stores with
      | nil => cases enough
      | cons messages rest =>
          have found : (before ++ listener :: later)[before.length]? = some listener := by simp
          have heard := hear_of_member member found messages
          simp only [List.set_append_right _ _ (Nat.le_refl _), Nat.sub_self,
            List.set_cons_zero] at heard
          have seated : (node.hear before.length messages).member =
              .host ⟨profile, (profile.hear listener messages replica).replica,
                (before ++ [(profile.hear listener messages replica).listener]) ++ later⟩ := by
            rw [heard, List.append_assoc]
            rfl
          have next := ih seated (Nat.le_of_succ_le_succ enough)
          rw [List.length_append] at next
          rw [hearEach]
          refine next.trans ?_
          rw [heard]
          simp only [List.zip_cons_cons, Network.hearAll, List.append_assoc,
            List.singleton_append]

end Node

namespace Network

/-! ## Emptying a queue -/

/-- The network after deliveries from the queues of subscriptions, in turn. -/
def delivered (indices : List Nat) (network : Network) : Network :=
  indices.foldl (fun network index => network.deliver index) network

theorem delivered_append
    (first second : List Nat)
    (network : Network) :
    network.delivered (first ++ second) = (network.delivered first).delivered second :=
  List.foldl_append

/-- The network after messages of a subscription are heard, which leave the rest of it. -/
def handOut (index : Nat) (rest : Subscription) (messages : List Message)
    (network : Network) : Network :=
  { network with
    hub := { network.hub with subscriptions := network.hub.subscriptions.set index rest }
    nodes := network.nodes.map fun node =>
      if node.endpoint = rest.endpoint then
        node.hear (network.numberOf index rest) messages
      else node }

theorem deliver_eq
    {network : Network}
    {index : Nat}
    {subscription rest : Subscription}
    {message? : Option Message}
    (found : network.hub.subscriptions[index]? = some subscription)
    (next : subscription.next? = some (message?, rest)) :
    network.deliver index = network.handOut index rest message?.toList := by
  rcases Subscription.waiting_of_next? next with ⟨endpoint, _, _⟩
  simp only [deliver, found, next, handOut, numberOf, endpoint]

theorem handOut_self
    {network : Network}
    {index : Nat}
    {subscription : Subscription}
    (found : network.hub.subscriptions[index]? = some subscription) :
    network.handOut index subscription [] = network := by
  rcases List.getElem?_eq_some_iff.mp found with ⟨within, rfl⟩
  simp only [handOut, Node.hear_nil, ite_self, List.map_id', List.set_getElem_self]

/-- What is handed out in two parts may be handed out in one. -/
theorem handOut_handOut
    (network : Network)
    (index : Nat)
    {first second : Subscription}
    (same : second.endpoint = first.endpoint)
    (left right : List Message) :
    (network.handOut index first left).handOut index second right =
      network.handOut index second (left ++ right) := by
  have number : (network.handOut index first left).numberOf index second =
      network.numberOf index first := by
    simp only [numberOf, handOut, List.take_set_of_le (Nat.le_refl index), same]
  have again : network.numberOf index second = network.numberOf index first := by
    simp only [numberOf, same]
  rw [handOut, number, handOut, handOut, again]
  simp only [List.set_set, List.map_map, same]
  congr 1
  apply List.map_congr_left
  intro node _
  by_cases here : node.endpoint = first.endpoint
  · simp [here, Node.endpoint_hear, Node.hear_append]
  · simp [here]

/-- All that is in a queue is delivered one by one, or handed out at once. -/
theorem delivered_replicate
    {network : Network}
    {index : Nat}
    {subscription : Subscription}
    (found : network.hub.subscriptions[index]? = some subscription) :
    network.delivered (List.replicate subscription.queue.length index) =
      network.handOut index subscription.drained subscription.waiting := by
  rcases subscription with ⟨endpoint, filter, queue⟩
  induction queue generalizing network with
  | nil => exact (handOut_self found).symm
  | cons delivery later ih =>
      let rest : Subscription := ⟨endpoint, filter, later⟩
      obtain ⟨message?, next⟩ : ∃ message?,
          Subscription.next? ⟨endpoint, filter, delivery :: later⟩ = some (message?, rest) :=
        ⟨_, rfl⟩
      have left : (network.handOut index rest message?.toList).hub.subscriptions[index]? =
          some rest :=
        List.getElem?_set_self (List.getElem?_eq_some_iff.mp found).1
      have same : rest.drained.endpoint = rest.endpoint := rfl
      show (network.deliver index).delivered (List.replicate later.length index) = _
      rw [deliver_eq found next, ih left, (Subscription.waiting_of_next? next).2.2]
      exact network.handOut_handOut index same _ _

/-! ## Emptying every queue -/

/-- The subscriptions of one endpoint among some. -/
def ofEndpoint (endpoint : Nat) (subscriptions : List Subscription) : List Subscription :=
  subscriptions.filter (·.endpoint == endpoint)

/-- The deliveries that empty the queues of subscriptions, which have indices from one on. -/
def backlog (index : Nat) : List Subscription → List Nat
  | [] => []
  | subscription :: rest =>
      List.replicate subscription.queue.length index ++ backlog (index + 1) rest

/-- When queues are emptied in turn, a node hears those of its own subscriptions. -/
theorem delivered_backlog
    {network : Network}
    {before rest : List Subscription}
    (subscriptions : network.hub.subscriptions = before ++ rest) :
    network.delivered (backlog before.length rest) =
      { network with
        hub := { network.hub with subscriptions := before ++ rest.map (·.drained) }
        nodes := network.nodes.map fun node =>
          node.hearEach (ofEndpoint node.endpoint before).length
            ((ofEndpoint node.endpoint rest).map (·.waiting)) } := by
  induction rest generalizing network before with
  | nil =>
      have hub : network.hub = { network.hub with subscriptions := before } := by
        rw [List.append_nil] at subscriptions
        rw [← subscriptions]
      simp only [backlog, delivered, List.foldl_nil, ofEndpoint, List.filter_nil, List.map_nil,
        Node.hearEach, List.map_id', List.append_nil, ← hub]
  | cons subscription rest ih =>
      -- The first queue is emptied; its subscription, drained, joins those before the rest.
      have found : network.hub.subscriptions[before.length]? = some subscription := by
        simp [subscriptions]
      have later : (network.handOut before.length subscription.drained
          subscription.waiting).hub.subscriptions =
            (before ++ [subscription.drained]) ++ rest := by
        simp [handOut, subscriptions]
      have number : network.numberOf before.length subscription.drained =
          (ofEndpoint subscription.endpoint before).length := by
        simp [numberOf, ofEndpoint, subscriptions, Subscription.drained]
      have next := ih later
      rw [List.length_append] at next
      rw [backlog, delivered_append, delivered_replicate found]
      refine next.trans ?_
      simp only [handOut, number, List.map_map, List.map_cons, List.append_assoc,
        List.singleton_append]
      congr 1
      apply List.map_congr_left
      intro node _
      by_cases here : node.endpoint = subscription.endpoint
      · simp [ofEndpoint, here, Subscription.drained, Node.endpoint_hear, Node.hearEach]
      · have apart : subscription.endpoint ≠ node.endpoint := fun same => here same.symm
        simp [ofEndpoint, here, apart, Subscription.drained]

/-! ## Settling -/

/-- No host of a network has more listeners than subscriptions. -/
def Attended (network : Network) : Prop :=
  ∀ node ∈ network.nodes, ∀ host, node.member = .host host →
    host.listeners.length ≤ (network.hub.subscriptionsOf node.endpoint).length

theorem receive_eq
    {network : Network}
    {node : Node}
    (attended : ∀ host, node.member = .host host →
      host.listeners.length ≤ (network.hub.subscriptionsOf node.endpoint).length) :
    (network.receive node).1 = node.hearEach 0 (network.waiting node) := by
  cases member : node.member with
  | observer =>
      rw [Node.hearEach_of_observer member]
      simp only [receive, member]
  | host host =>
      have enough : host.listeners.length ≤ (network.waiting node).length := by
        simpa only [waiting, List.length_map] using attended host member
      have seated : node.member = .host ⟨host.profile, host.replica, [] ++ host.listeners⟩ :=
        member
      refine Eq.trans ?_ (Node.hearEach_eq seated enough).symm
      simp only [receive, member, List.nil_append]

/-- A network settles as it does when its queues are emptied in turn. -/
theorem settle_eq
    {network : Network}
    (attended : network.Attended) :
    network.settle.1 = network.delivered (backlog 0 network.hub.subscriptions) := by
  have subscriptions : network.hub.subscriptions = [] ++ network.hub.subscriptions := rfl
  have emptied := delivered_backlog subscriptions
  rw [List.length_nil, List.nil_append] at emptied
  rw [emptied]
  simp only [settle, Hub.drained, List.map_map]
  congr 1
  apply List.map_congr_left
  intro node among
  exact receive_eq (attended node among)

/-- Nothing is in the queues of a network. -/
def Drained (network : Network) : Prop :=
  ∀ subscription ∈ network.hub.subscriptions, subscription.queue = []

theorem drained_settle (network : Network) : network.settle.1.Drained := by
  intro subscription listed
  rcases List.mem_map.mp listed with ⟨old, _, rfl⟩
  rfl

theorem settle_of_drained
    {network : Network}
    (attended : network.Attended)
    (drained : network.Drained) :
    network.settle.1 = network := by
  have none : ∀ (subscriptions : List Subscription) (index : Nat),
      (∀ subscription ∈ subscriptions, subscription.queue = []) →
        backlog index subscriptions = [] := by
    intro subscriptions
    induction subscriptions with
    | nil => exact fun _ _ => rfl
    | cons first rest ih =>
        intro index empty
        rw [backlog, empty first List.mem_cons_self, ih (index + 1) fun subscription listed =>
          empty subscription (List.mem_cons_of_mem _ listed)]
        rfl
  rw [settle_eq attended, none _ 0 drained]
  rfl

/-! ## Steps -/

/-- The network after steps in turn. -/
def after (steps : List Step) (network : Network) : Network :=
  steps.foldl (fun network step => (network.step step).2) network

/-- Whether a step is a change, a look at a replica or a movement of the clock. -/
def Step.isOwn : Step → Bool
  | .act _ (.change _) | .act _ (.read ..) | .setClock _ => true
  | _ => false

theorem ready_ofNewcomers (clock : Binary64) (newcomers : List Newcomer) :
    (ofNewcomers clock newcomers).Attended ∧ (ofNewcomers clock newcomers).Drained := by
  rw [ofNewcomers_eq]
  constructor
  · intro node among host member
    rcases List.getElem?_of_mem among with ⟨position, held⟩
    rw [List.getElem?_mapIdx] at held
    rcases Option.map_eq_some_iff.mp held with ⟨newcomer, _, rfl⟩
    cases newcomer with
    | replica sender profile =>
        cases member
        exact Nat.zero_le _
    | observer sender => cases member
  · exact nofun

/-- To listen is to subscribe, and nothing else. -/
theorem ready_listen
    {network : Network}
    (attended : network.Attended)
    (drained : network.Drained)
    (position : Nat) :
    (network.act position .listen).2.1.Attended ∧
      (network.act position .listen).2.1.Drained := by
  cases found : network.nodes[position]? with
  | none =>
      simp only [act, found]
      exact ⟨attended, drained⟩
  | some node =>
      cases member : node.member with
      | observer =>
          simp only [act, found, member]
          exact ⟨attended, drained⟩
      | host host =>
          simp only [act, found, member, atReplica]
          constructor
          · intro changed among changedHost changedMember
            rcases List.getElem?_of_mem among with ⟨other, held⟩
            rw [getElem?_setHost] at held
            rcases Option.map_eq_some_iff.mp held with ⟨old, seat, rfl⟩
            by_cases here : position = other
            · subst here
              obtain rfl : node = old := Option.some.inj (found.symm.trans seat)
              have before := attended node (List.mem_of_getElem? found) host member
              simp only [↓reduceIte, Member.host.injEq] at changedMember
              subst changedMember
              simpa [subscribe, setHost, Hub.subscribe, Hub.subscriptionsOf] using before
            · simp only [here, ↓reduceIte] at changedMember ⊢
              have before := attended old (List.mem_of_getElem? seat) changedHost changedMember
              refine before.trans ?_
              simp [subscribe, setHost, Hub.subscribe, Hub.subscriptionsOf]
          · intro subscription listed
            rcases List.mem_append.mp listed with earlier | last
            · exact drained subscription earlier
            · obtain rfl := List.mem_singleton.mp last
              rfl

/-- Steps that listen, before anything is published, deliver nothing. -/
theorem after_listen
    {network : Network}
    (attended : network.Attended)
    (drained : network.Drained)
    (positions : List Nat) :
    network.after (positions.map (.act · .listen)) = network.opened positions := by
  induction positions generalizing network with
  | nil => rfl
  | cons position rest ih =>
      rcases ready_listen attended drained position with ⟨attends, empty⟩
      show ((network.step (.act position .listen)).2).after (rest.map (.act · .listen)) = _
      have still : (network.step (.act position .listen)).2 =
          (network.act position .listen).2.1 :=
        settle_of_drained attends empty
      rw [still, ih attends empty]
      rfl

end Network

namespace Traffic

variable {channel : Channel} {traffic : Traffic}

theorem run_append
    (first second : List Move)
    (traffic : Traffic) :
    traffic.run (first ++ second) = (traffic.run first).run second :=
  List.foldl_append

theorem run_deliveries
    (indices : List Nat)
    (traffic : Traffic) :
    traffic.run (indices.map .deliver) =
      { traffic with network := traffic.network.delivered indices } := by
  induction indices generalizing traffic with
  | nil => rfl
  | cons index rest ih => exact ih _

theorem Sound.attended (sound : Sound channel traffic) : traffic.network.Attended := by
  intro node among host member
  rcases List.mem_iff_getElem.mp among with ⟨position, within, rfl⟩
  have seat := List.getElem?_eq_getElem within
  rcases List.mem_map.mp (sound.all position within) with ⟨subscription, listed, endpoint⟩
  have balanced := sound.books position _ host subscription seat member listed endpoint
  rw [balanced.listeners]
  apply List.length_pos_of_mem
  rw [Hub.subscriptionsOf, List.mem_filter]
  exact ⟨listed, by simp [endpoint, (sound.nodes position _ seat).1]⟩

/-- Traffic with nothing to publish settles by further moves, and is idle then. -/
theorem Sound.settle
    (sound : Sound channel traffic)
    (moves : List Move)
    (nothing : (traffic.run moves).tickets = []) :
    ∃ all, (traffic.run moves).network.settle.1 = (traffic.run all).network ∧
      (traffic.run all).Idle := by
  have settled := Network.settle_eq (sound.run moves).attended
  have drained := Network.drained_settle (traffic.run moves).network
  refine ⟨moves ++ (Network.backlog 0 (traffic.run moves).network.hub.subscriptions).map .deliver,
    ?_⟩
  rw [run_append, run_deliveries]
  exact ⟨settled, nothing, settled ▸ drained⟩

/-- A step of one's own is some moves, after which the traffic is idle again. -/
theorem Sound.step
    (sound : Sound channel traffic)
    (nothing : traffic.tickets = [])
    {step : Network.Step}
    (own : step.isOwn = true) :
    ∃ moves, (traffic.network.step step).2 = (traffic.run moves).network ∧
      (traffic.run moves).Idle := by
  cases step with
  | setClock millis => exact sound.settle [.setClock millis] nothing
  | act position action =>
      cases found : traffic.network.nodes[position]? with
      | none =>
          have still : traffic.network.act position action = (.impossible, traffic.network, []) := by
            simp only [Network.act, found]
          simp only [Network.step, still]
          exact sound.settle [] nothing
      | some node =>
          rcases sound.nodes position node found with ⟨_, host, member, _⟩
          have acted : traffic.network.act position action =
              traffic.network.atReplica position node host action := by
            simp only [Network.act, found, member]
          simp only [Network.step, acted]
          cases action with
          | change change =>
              rcases change_eq nothing found member change with ⟨same, published⟩
              simp only [Network.atReplica, same]
              exact sound.settle _ published
          | read family key => exact sound.settle [] nothing
          | inbound message => cases own
          | listen => cases own
          | publish outbound => cases own
          | subscribe filter => cases own
          | stop => cases own

theorem Sound.after
    (sound : Sound channel traffic)
    (idle : traffic.Idle)
    {steps : List Network.Step}
    (own : ∀ step ∈ steps, step.isOwn = true) :
    ∃ moves, traffic.network.after steps = (traffic.run moves).network ∧
      (traffic.run moves).Idle := by
  induction steps using List.reverseRecOn with
  | nil => exact ⟨[], rfl, idle⟩
  | append_singleton earlier last ih =>
      rcases ih fun step among => own step (List.mem_append_left _ among) with
        ⟨moves, reached, rest⟩
      obtain ⟨further, next, resting⟩ := (sound.run moves).step rest.1
        (own last (List.mem_append_right _ (List.mem_singleton_self _)))
      refine ⟨moves ++ further, ?_, ?_⟩
      · rw [run_append, ← next, ← reached, Network.after, List.foldl_append]
        rfl
      · rw [run_append]
        exact resting

/--
A network on which all replicas of a channel have listened once, and on which a
user then makes changes, is the network of idle traffic.
-/
theorem exists_moves_of_steps
    {channel : Channel}
    {newcomers : List Network.Newcomer}
    {positions : List Nat}
    {steps : List Network.Step}
    (clock : Binary64)
    (united : channel.Unites newcomers)
    (once : positions.Perm (List.range newcomers.length))
    (own : ∀ step ∈ steps, step.isOwn = true) :
    ∃ moves,
      let final := (start ((Network.ofNewcomers clock newcomers).opened positions)).run moves
      (Network.ofNewcomers clock newcomers).after (positions.map (.act · .listen) ++ steps) =
          final.network ∧
        final.Idle := by
  rcases Network.ready_ofNewcomers clock newcomers with ⟨attended, drained⟩
  have idle : (start ((Network.ofNewcomers clock newcomers).opened positions)).Idle :=
    ⟨rfl, (opened_of_united clock united once).queues⟩
  have listened := Network.after_listen attended drained positions
  rw [Network.after, List.foldl_append, ← Network.after, ← Network.after, listened]
  exact (sound_start clock united once).after idle own

end Traffic

end ConvergentStore
