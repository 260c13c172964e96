import ConvergentStore.Proofs.Channel.Queue
import ConvergentStore.Proofs.Network.Traffic
import ConvergentStore.Proofs.Replica.Ingestion
import Mathlib.Data.List.Nodup
import Mathlib.Data.List.Perm.Basic

/-!
# Convergence on a hub

Replicas of one channel that listen from the beginning. Whatever the order of
changes, publications and deliveries, the operations that a replica has heard,
those in its queue and those that others have still to publish are together the
operations accepted so far: `Sound` holds that balance, and every move keeps
it. So when nothing is in flight any more, all replicas have heard the same
operations, and `hub_converges` says what they have in common then.
-/

namespace ConvergentStore

/-! ## Tallies -/

namespace Operation

theorem canonical_canonical (operation : Operation) :
    operation.canonical.canonical = operation.canonical := by
  have twice : ∀ x : Binary64, x.canonical.canonical = x.canonical := by
    intro x
    by_cases zero : x.equals 0 = true
    · simp [Binary64.canonical, zero]
    · simp [Binary64.canonical, zero]
  cases operation with
  | registerSet => simp only [canonical, twice]
  | counterIncrement => simp only [canonical, twice]
  | setAdd => rfl

/-- How often an operation occurs among others, the sign of zero aside. -/
def tally (operation : Operation) (operations : List Operation) : Nat :=
  (operations.map canonical).count operation

@[simp]
theorem tally_nil (operation : Operation) : operation.tally [] = 0 :=
  rfl

@[simp]
theorem tally_append
    (operation : Operation)
    (left right : List Operation) :
    operation.tally (left ++ right) = operation.tally left + operation.tally right := by
  simp only [tally, List.map_append, List.count_append]

@[simp]
theorem tally_canonical
    (operation other : Operation) :
    operation.tally [other.canonical] = operation.tally [other] := by
  simp only [tally, List.map_singleton, canonical_canonical]

theorem tally_perm
    (operation : Operation)
    {left right : List Operation}
    (same : left.Perm right) :
    operation.tally left = operation.tally right :=
  (same.map canonical).count_eq operation

theorem perm_of_tally
    {left right : List Operation}
    (same : ∀ operation : Operation, operation.tally left = operation.tally right) :
    (left.map canonical).Perm (right.map canonical) :=
  List.perm_iff_count.mpr same

end Operation

/-! ## Channels -/

/-- What replicas on a hub have in common: a kind, a marker, and whether they seal. -/
structure Channel where
  kind : Binary64
  marker : String
  isSealed : Bool

namespace Channel

/--
A profile under a sender's name belongs to a channel. It has the kind and the
marker of the channel and a key; if the channel is sealed, the key is the name.
-/
structure Carries (channel : Channel) (sender : String) (profile : Profile) : Prop where
  kind : profile.settings.kind.equals channel.kind = true
  marker : profile.settings.marker = channel.marker
  cipher : profile.cipher = if channel.isSealed then .sealing else .plain
  key : ∃ key, profile.identity = .owner key ∧ (channel.isSealed = true → key = sender)

variable {channel : Channel} {makerName takerName : String} {maker taker : Profile}

theorem Carries.sharesChannel
    (makes : channel.Carries makerName maker)
    (takes : channel.Carries takerName taker) :
    maker.SharesChannel taker := by
  constructor
  · have left := makes.kind
    have right := takes.kind
    simp only [Binary64.equals, Bool.and_eq_true, beq_iff_eq] at left right ⊢
    exact ⟨⟨left.1.1, right.1.1⟩, left.2.trans right.2.symm⟩
  · exact makes.marker.trans takes.marker.symm

/-- What one replica of a channel makes of an operation, every other one decodes to it. -/
theorem Carries.decoded?_outbound
    {operation : Operation}
    (makes : channel.Carries makerName maker)
    (takes : channel.Carries takerName taker)
    (travels : operation.MayTravel) :
    ∃ outbound, maker.prepare operation = .ok outbound ∧
      ∀ id,
        taker.filter.admits (outbound.toMessage id makerName) = true ∧
        taker.decoded? (outbound.toMessage id makerName) = some operation.canonical := by
  have shared := makes.sharesChannel takes
  rcases makes.key with ⟨key, owner, name⟩
  have makerCipher := makes.cipher
  have takerCipher := takes.cipher
  obtain ⟨content, encrypted, revealed⟩ :
      ∃ content, maker.cipher.encrypt operation.toWire.compact key = .ok content ∧
        ∀ id, taker.reveal ((maker.outbound operation content).toMessage id makerName) =
          .ok operation.toWire.compact := by
    cases sealed : channel.isSealed with
    | false =>
        rw [sealed] at makerCipher takerCipher
        refine ⟨operation.toWire.compact, ?_, fun id => Profile.reveal_plain takerCipher _⟩
        rw [makerCipher]
        rfl
    | true =>
        rw [sealed] at makerCipher takerCipher
        obtain rfl := name sealed
        refine ⟨Cipher.enclose operation.toWire.compact key, ?_, fun id =>
          Profile.reveal_sealed takerCipher operation rfl⟩
        rw [makerCipher]
        rfl
  refine ⟨_, Profile.prepare_eq_ok owner travels encrypted, ?_⟩
  intro id
  constructor
  · exact Profile.admits_outbound shared operation content id makerName
  · rw [Profile.decoded?, Profile.screen_outbound shared,
      Profile.extract_of_reveal travels (revealed id)]
    rfl

end Channel

/-! ## The balance -/

/-- The operations in flight that were not applied at a position. -/
def Ticket.outstanding (position : Nat) (tickets : List Ticket) : List Operation :=
  (tickets.filter (·.position != position)).map (·.operation)

theorem Ticket.outstanding_concat
    (position : Nat)
    (tickets : List Ticket)
    (last : Ticket) :
    outstanding position (tickets ++ [last]) =
      outstanding position tickets ++
        if last.position = position then [] else [last.operation] := by
  simp only [outstanding, List.filter_append, List.map_append, List.filter_cons,
    List.filter_nil]
  split <;> simp_all

theorem Ticket.tally_eraseIdx
    (operation : Operation)
    (position : Nat)
    {tickets : List Ticket}
    {index : Nat}
    {ticket : Ticket}
    (found : tickets[index]? = some ticket) :
    operation.tally (outstanding position tickets) =
      operation.tally (outstanding position (tickets.eraseIdx index)) +
        operation.tally (if ticket.position = position then [] else [ticket.operation]) := by
  rcases List.getElem?_eq_some_iff.mp found with ⟨within, rfl⟩
  have order := (List.getElem_cons_eraseIdx_perm within).symm.trans
    (List.perm_append_singleton _ _).symm
  have moved := ((order.filter (·.position != position)).map (·.operation))
  rw [← Operation.tally_append, ← outstanding_concat]
  exact operation.tally_perm moved

namespace Traffic

/--
The books of a host with one subscription. What it has heard, what it has in
store and what others have still to publish is what was accepted.
-/
structure Balanced
    (tickets : List Ticket)
    (accepted : List Operation)
    (position : Nat)
    (host : Host)
    (subscription : Subscription) : Prop where
  listeners : host.listeners = [.attentive]
  filter : subscription.filter = host.profile.filter
  legible : ∀ message ∈ subscription.waiting,
    ∃ operation, host.profile.decoded? message = some operation
  history : ∃ heard, host.replica = Replica.replay heard .empty ∧
    ∀ operation : Operation,
      operation.tally heard + operation.tally (host.profile.carried subscription.waiting) +
          operation.tally (Ticket.outstanding position tickets) =
        operation.tally accepted

/-- Traffic among replicas of a channel, each with one subscription and its books in order. -/
structure Sound (channel : Channel) (traffic : Traffic) : Prop where
  nodes : ∀ position node, traffic.network.nodes[position]? = some node →
    node.endpoint = position + 1 ∧
      ∃ host, node.member = .host host ∧ channel.Carries node.sender host.profile
  once : (traffic.network.hub.subscriptions.map (·.endpoint)).Nodup
  all : ∀ position, position < traffic.network.nodes.length →
    position + 1 ∈ traffic.network.hub.subscriptions.map (·.endpoint)
  tickets : ∀ ticket ∈ traffic.tickets,
    ticket.position < traffic.network.nodes.length ∧ ticket.operation.MayTravel
  books : ∀ position node host subscription,
    traffic.network.nodes[position]? = some node →
    node.member = .host host →
    subscription ∈ traffic.network.hub.subscriptions →
    subscription.endpoint = position + 1 →
    Balanced traffic.tickets traffic.accepted position host subscription

variable {channel : Channel} {traffic : Traffic} {tickets : List Ticket}
  {accepted : List Operation}

/-! ## Applying -/

/-- The books of the host that applies an operation get a heard one. -/
theorem Balanced.applied
    {position : Nat}
    {host : Host}
    {subscription : Subscription}
    {operation : Operation}
    {next : Replica}
    (balanced : Balanced tickets accepted position host subscription)
    (taken : host.replica.apply operation = .ok next) :
    Balanced (tickets ++ [⟨position, operation⟩]) (accepted ++ [operation]) position
      { host with replica := next } subscription := by
  rcases balanced.history with ⟨heard, replayed, balance⟩
  refine ⟨balanced.listeners, balanced.filter, balanced.legible, heard ++ [operation], ?_, ?_⟩
  · rw [Replica.replay_concat, ← replayed]
    exact (Replica.commit_of_apply_eq_ok taken).symm
  · intro other
    have before := balance other
    simp only [Ticket.outstanding_concat, ↓reduceIte, List.append_nil, Operation.tally_append]
    omega

/-- The books of other hosts get an outstanding one. -/
theorem Balanced.awaiting
    {position elsewhere : Nat}
    {host : Host}
    {subscription : Subscription}
    (balanced : Balanced tickets accepted position host subscription)
    (apart : elsewhere ≠ position)
    (operation : Operation) :
    Balanced (tickets ++ [⟨elsewhere, operation⟩]) (accepted ++ [operation]) position host
      subscription := by
  rcases balanced.history with ⟨heard, replayed, balance⟩
  refine ⟨balanced.listeners, balanced.filter, balanced.legible, heard, replayed, ?_⟩
  intro other
  have before := balance other
  simp only [Ticket.outstanding_concat, apart, ↓reduceIte, Operation.tally_append]
  omega

theorem Sound.apply
    (sound : Sound channel traffic)
    (position : Nat)
    (operation : Operation) :
    Sound channel (traffic.apply position operation) := by
  rw [Traffic.apply]
  cases found : traffic.network.hostAt? position with
  | none => exact sound
  | some pair =>
      rcases pair with ⟨node, host⟩
      rcases Network.of_hostAt? found with ⟨seat, member⟩
      have within := (List.getElem?_eq_some_iff.mp seat).1
      cases accepted : host.replica.apply operation with
      | error refusal => simpa only [accepted] using sound
      | ok next =>
          simp only [accepted]
          constructor
          · intro other changed
            rw [Network.getElem?_setHost]
            intro held
            rcases Option.map_eq_some_iff.mp held with ⟨old, oldSeat, rfl⟩
            rcases sound.nodes other old oldSeat with ⟨endpoint, oldHost, oldMember, carries⟩
            split
            · next here =>
                subst here
                obtain rfl : node = old := Option.some.inj (seat.symm.trans oldSeat)
                obtain rfl : host = oldHost :=
                  Member.host.inj (member.symm.trans oldMember)
                exact ⟨endpoint, _, rfl, carries⟩
            · exact ⟨endpoint, oldHost, oldMember, carries⟩
          · exact sound.once
          · intro other less
            apply sound.all other
            simpa only [Network.setHost, List.length_modify] using less
          · intro ticket among
            simp only [Network.setHost, List.length_modify]
            rcases List.mem_append.mp among with before | last
            · exact sound.tickets ticket before
            · obtain rfl := List.mem_singleton.mp last
              exact ⟨within, Replica.mayTravel_of_apply accepted⟩
          · intro other changed changedHost subscription held changedMember listed endpoint
            rw [Network.getElem?_setHost] at held
            rcases Option.map_eq_some_iff.mp held with ⟨old, oldSeat, rfl⟩
            by_cases here : position = other
            · subst here
              obtain rfl : node = old := Option.some.inj (seat.symm.trans oldSeat)
              simp only [↓reduceIte, Member.host.injEq] at changedMember
              subst changedMember
              exact (sound.books position node host subscription seat member listed
                endpoint).applied accepted
            · simp only [here, ↓reduceIte] at changedMember
              exact (sound.books other old changedHost subscription oldSeat changedMember listed
                endpoint).awaiting here operation

/-! ## Publishing -/

/-- The books of the publisher do not change, as its own publication is passed over. -/
theorem Balanced.published
    {position index : Nat}
    {host : Host}
    {subscription : Subscription}
    {operation : Operation}
    (balanced : Balanced tickets accepted position host subscription)
    (found : tickets[index]? = some ⟨position, operation⟩)
    {delivery : Delivery}
    (own : subscription.receives delivery = false) :
    Balanced (tickets.eraseIdx index) accepted position host
      { subscription with queue := subscription.queue ++ [delivery] } := by
  rcases balanced.history with ⟨heard, replayed, balance⟩
  have same : Subscription.waiting
      { subscription with queue := subscription.queue ++ [delivery] } = subscription.waiting := by
    simp [Subscription.waiting_concat, own]
  refine ⟨balanced.listeners, balanced.filter, ?_, heard, replayed, ?_⟩
  · rw [same]
    exact balanced.legible
  · intro other
    have before := balance other
    have erased := Ticket.tally_eraseIdx other position found
    simp only [↓reduceIte, Operation.tally_nil] at erased
    simp only [same]
    omega

/-- In the books of other hosts an outstanding operation comes into store. -/
theorem Balanced.stored
    {position elsewhere index : Nat}
    {host : Host}
    {subscription : Subscription}
    {operation : Operation}
    (balanced : Balanced tickets accepted position host subscription)
    (found : tickets[index]? = some ⟨elsewhere, operation⟩)
    (apart : elsewhere ≠ position)
    {delivery : Delivery}
    (received : subscription.receives delivery = true)
    (carried : host.profile.decoded? delivery.message = some operation.canonical) :
    Balanced (tickets.eraseIdx index) accepted position host
      { subscription with queue := subscription.queue ++ [delivery] } := by
  rcases balanced.history with ⟨heard, replayed, balance⟩
  have more : Subscription.waiting
      { subscription with queue := subscription.queue ++ [delivery] } =
        subscription.waiting ++ [delivery.message] := by
    simp [Subscription.waiting_concat, received]
  refine ⟨balanced.listeners, balanced.filter, ?_, heard, replayed, ?_⟩
  · rw [more]
    intro message member
    rcases List.mem_append.mp member with before | last
    · exact balanced.legible message before
    · obtain rfl := List.mem_singleton.mp last
      exact ⟨_, carried⟩
  · intro other
    have before := balance other
    have erased := Ticket.tally_eraseIdx other position found
    simp only [apart, ↓reduceIte] at erased
    have arrived : host.profile.carried (subscription.waiting ++ [delivery.message]) =
        host.profile.carried subscription.waiting ++ [operation.canonical] := by
      simp [Profile.carried, carried]
    simp only [more, arrived, Operation.tally_append, Operation.tally_canonical]
    omega

theorem Sound.publish
    (sound : Sound channel traffic)
    (index : Nat) :
    Sound channel (traffic.publish index) := by
  rw [Traffic.publish]
  cases found : traffic.tickets[index]? with
  | none => exact sound
  | some ticket =>
      rcases ticket with ⟨position, operation⟩
      cases hosted : traffic.network.hostAt? position with
      | none => simpa only [hosted] using sound
      | some pair =>
          rcases pair with ⟨node, host⟩
          rcases Network.of_hostAt? hosted with ⟨seat, member⟩
          rcases sound.nodes position node seat with ⟨nodeEndpoint, nodeHost, nodeMember, makes⟩
          obtain rfl : host = nodeHost := Member.host.inj (member.symm.trans nodeMember)
          have travels := (sound.tickets _ (List.mem_of_getElem? found)).2
          rcases makes.decoded?_outbound makes travels with ⟨outbound, prepared, _⟩
          simp only [hosted, prepared]
          constructor
          · exact sound.nodes
          · simpa [Network.publish, Hub.publish, Function.comp_def] using sound.once
          · simpa [Network.publish, Hub.publish, Function.comp_def] using sound.all
          · intro ticket among
            exact sound.tickets ticket (List.mem_of_mem_eraseIdx among)
          · intro other otherNode otherHost subscription otherSeat otherMember listed endpoint
            simp only [Network.publish, Hub.publish, List.mem_map] at listed
            rcases listed with ⟨old, oldListed, rfl⟩
            have before := sound.books other otherNode otherHost old otherSeat otherMember
              oldListed endpoint
            simp only at endpoint
            -- The publisher passes over what it published; every other host has it in store.
            by_cases here : position = other
            · subst here
              apply before.published found
              simp [Subscription.receives, nodeEndpoint, endpoint]
            · rcases sound.nodes other otherNode otherSeat with ⟨_, takerHost, takerMember, takes⟩
              obtain rfl : otherHost = takerHost :=
                Member.host.inj (otherMember.symm.trans takerMember)
              rcases makes.decoded?_outbound takes travels with ⟨_, again, arrives⟩
              rw [prepared] at again
              cases again
              rcases arrives (traffic.network.hub.nextId node.sender) with ⟨admitted, decoded⟩
              apply before.stored found here _ decoded
              simp [Subscription.receives, nodeEndpoint, endpoint, here, before.filter,
                admitted]

/-! ## Delivering -/

end Traffic

theorem Node.endpoint_hear
    (number : Nat)
    (messages : List Message)
    (node : Node) :
    (node.hear number messages).endpoint = node.endpoint := by
  rw [hear]
  split
  · rfl
  · split <;> rfl

/-- The only listener of a host takes all messages that do not break it. -/
theorem Node.hear_of_attentive
    {node : Node}
    {host : Host}
    {messages : List Message}
    (member : node.member = .host host)
    (listeners : host.listeners = [.attentive])
    (sound : ∀ message ∈ messages, host.profile.breaks message = false) :
    node.hear 0 messages =
      { node with
        member := .host
          { host with
            replica := Replica.replay (host.profile.carried messages) host.replica } } := by
  have attentive := Profile.absorbAll_listener sound host.replica
  simp only [hear, member, listeners, List.getElem?_cons_zero, Profile.hear, attentive,
    Profile.absorbAll_of_not_breaks sound, Profile.receivedAll_eq, List.set_cons_zero]

namespace Traffic

variable {channel : Channel} {traffic : Traffic} {tickets : List Ticket}
  {accepted : List Operation}

/-- What is delivered goes from the store to what was heard. -/
theorem Balanced.delivered
    {position : Nat}
    {host : Host}
    {subscription rest : Subscription}
    {message? : Option Message}
    (balanced : Balanced tickets accepted position host subscription)
    (next : subscription.next? = some (message?, rest)) :
    Balanced tickets accepted position
      { host with
        replica := Replica.replay (host.profile.carried message?.toList) host.replica }
      rest := by
  rcases Subscription.waiting_of_next? next with ⟨_, filter, store⟩
  rcases balanced.history with ⟨heard, replayed, balance⟩
  refine ⟨balanced.listeners, filter.trans balanced.filter, ?_,
    heard ++ host.profile.carried message?.toList, ?_, ?_⟩
  · intro message member
    exact balanced.legible message (store ▸ List.mem_append_right _ member)
  · rw [Replica.replay_append, ← replayed]
  · intro other
    have before := balance other
    simp only [store, Profile.carried_append, Operation.tally_append] at before ⊢
    omega

theorem Balanced.not_breaks
    {position : Nat}
    {host : Host}
    {subscription rest : Subscription}
    {message? : Option Message}
    (balanced : Balanced tickets accepted position host subscription)
    (next : subscription.next? = some (message?, rest)) :
    ∀ message ∈ message?.toList, host.profile.breaks message = false := by
  rcases Subscription.waiting_of_next? next with ⟨_, _, store⟩
  intro message member
  rcases balanced.legible message (store ▸ List.mem_append_left _ member) with ⟨operation, carried⟩
  exact Profile.not_breaks_of_decoded? carried

theorem numberOf_eq_zero
    {network : Network}
    {index : Nat}
    {subscription : Subscription}
    (once : (network.hub.subscriptions.map (·.endpoint)).Nodup)
    (found : network.hub.subscriptions[index]? = some subscription) :
    network.numberOf index subscription = 0 := by
  rcases List.getElem?_eq_some_iff.mp found with ⟨within, rfl⟩
  rw [Network.numberOf, List.length_eq_zero_iff, List.filter_eq_nil_iff]
  intro other earlier same
  rcases List.mem_take_iff_getElem.mp earlier with ⟨place, placed, rfl⟩
  have apart := List.pairwise_iff_getElem.mp (List.pairwise_map.mp once) place index
    (by omega) within (by omega)
  exact apart (by simpa using same)

/-- Delivery leaves the endpoints of the subscriptions as they are. -/
theorem endpoints_set
    {subscriptions : List Subscription}
    {index : Nat}
    {subscription rest : Subscription}
    (found : subscriptions[index]? = some subscription)
    (endpoint : rest.endpoint = subscription.endpoint) :
    (subscriptions.set index rest).map (·.endpoint) = subscriptions.map (·.endpoint) := by
  rcases List.getElem?_eq_some_iff.mp found with ⟨within, rfl⟩
  have kept := congrArg (List.map (·.endpoint)) (List.set_getElem_self within)
  rw [List.map_set] at kept ⊢
  rw [endpoint]
  exact kept

theorem Sound.deliver
    (sound : Sound channel traffic)
    (index : Nat) :
    Sound channel { traffic with network := traffic.network.deliver index } := by
  rw [Network.deliver]
  cases found : traffic.network.hub.subscriptions[index]? with
  | none => exact sound
  | some subscription =>
      cases next : subscription.next? with
      | none => simpa only [next] using sound
      | some pair =>
          rcases pair with ⟨message?, rest⟩
          rcases Subscription.waiting_of_next? next with ⟨endpoint, _, _⟩
          have opened := List.mem_of_getElem? found
          have endpoints := endpoints_set found endpoint
          simp only [next, numberOf_eq_zero sound.once found]
          -- The one node that hears is the node of the subscription.
          have hears : ∀ position node host,
              traffic.network.nodes[position]? = some node → node.member = .host host →
              node.endpoint = subscription.endpoint →
                Balanced traffic.tickets traffic.accepted position host subscription := by
            intro position node host seat member same
            have own := (sound.nodes position node seat).1
            exact sound.books position node host subscription seat member opened
              (same.symm.trans own)
          constructor
          · intro position changed held
            rw [List.getElem?_map] at held
            rcases Option.map_eq_some_iff.mp held with ⟨node, seat, rfl⟩
            rcases sound.nodes position node seat with ⟨own, host, member, carries⟩
            split
            · next same =>
                have balanced := hears position node host seat member same
                rw [Node.hear_of_attentive member balanced.listeners (balanced.not_breaks next)]
                exact ⟨own, _, rfl, carries⟩
            · exact ⟨own, host, member, carries⟩
          · rw [endpoints]
            exact sound.once
          · rw [endpoints]
            simpa only [List.length_map] using sound.all
          · simpa only [List.length_map] using sound.tickets
          · intro position changed changedHost other held changedMember listed otherEndpoint
            rw [List.getElem?_map] at held
            rcases Option.map_eq_some_iff.mp held with ⟨node, seat, rfl⟩
            rcases sound.nodes position node seat with ⟨own, host, member, _⟩
            by_cases same : node.endpoint = subscription.endpoint
            · have balanced := hears position node host seat member same
              rw [if_pos same, Node.hear_of_attentive member balanced.listeners
                (balanced.not_breaks next)] at changedMember
              cases changedMember
              have restListed : rest ∈ traffic.network.hub.subscriptions.set index rest :=
                List.mem_set (List.getElem?_eq_some_iff.mp found).1 rest
              have unique : other = rest :=
                List.inj_on_of_nodup_map (endpoints ▸ sound.once) listed restListed
                  (by rw [otherEndpoint, endpoint, ← same, own])
              subst unique
              exact balanced.delivered next
            · rw [if_neg same] at changedMember
              have apart : other ≠ rest := by
                rintro rfl
                exact same (by rw [own, ← otherEndpoint, endpoint])
              have oldListed := (List.mem_or_eq_of_mem_set listed).resolve_right apart
              exact sound.books position node changedHost other seat changedMember oldListed
                otherEndpoint

/-! ## Running -/

theorem Sound.move
    (sound : Sound channel traffic)
    (step : Move) :
    Sound channel (traffic.move step) := by
  cases step with
  | apply position operation => exact sound.apply position operation
  | publish ticket => exact sound.publish ticket
  | deliver subscription => exact sound.deliver subscription
  | setClock millis =>
      exact ⟨sound.nodes, sound.once, sound.all, sound.tickets, sound.books⟩

theorem Sound.run
    (sound : Sound channel traffic)
    (moves : List Move) :
    Sound channel (traffic.run moves) := by
  induction moves generalizing traffic with
  | nil => exact sound
  | cons first rest ih => exact ih (sound.move first)

end Traffic

/-! ## Opening -/

namespace Network

theorem ofNewcomers_eq (clock : Binary64) (newcomers : List Newcomer) :
    ofNewcomers clock newcomers =
      ⟨⟨newcomers.length, []⟩, clock,
        newcomers.mapIdx fun position newcomer =>
          ⟨position + 1, newcomer.sender, newcomer.member⟩⟩ := by
  induction newcomers using List.reverseRecOn with
  | nil => rfl
  | append_singleton earlier last ih =>
      have joined : ofNewcomers clock (earlier ++ [last]) =
          (ofNewcomers clock earlier).join last := by
        simp only [ofNewcomers, List.foldl_append, List.foldl_cons, List.foldl_nil]
      rw [joined, ih, List.mapIdx_concat, List.length_append]
      rfl

/-- A network of replicas of which those at some positions listen, each once. -/
structure Opened
    (newcomers : List Newcomer)
    (positions : List Nat)
    (network : Network) : Prop where
  size : network.nodes.length = newcomers.length
  seats : ∀ (position : Nat) (sender : String) (profile : Profile),
    newcomers[position]? = some (.replica sender profile) →
    network.nodes[position]? = some
      ⟨position + 1, sender, .host
        ⟨profile, .empty, if position ∈ positions then [.attentive] else []⟩⟩
  endpoints : network.hub.subscriptions.map (·.endpoint) = positions.map (· + 1)
  queues : ∀ subscription ∈ network.hub.subscriptions, subscription.queue = []
  filters : ∀ (position : Nat) (sender : String) (profile : Profile),
    newcomers[position]? = some (.replica sender profile) →
    ∀ subscription ∈ network.hub.subscriptions, subscription.endpoint = position + 1 →
      subscription.filter = profile.filter

theorem opened_ofNewcomers (clock : Binary64) (newcomers : List Newcomer) :
    Opened newcomers [] (ofNewcomers clock newcomers) := by
  rw [ofNewcomers_eq]
  constructor
  · exact List.length_mapIdx
  · intro position sender profile found
    rw [List.getElem?_mapIdx, found]
    rfl
  · rfl
  · exact nofun
  · intro position sender profile _ subscription listed
    cases listed

theorem Opened.listen
    {newcomers : List Newcomer}
    {positions : List Nat}
    {network : Network}
    {position : Nat}
    {sender : String}
    {profile : Profile}
    (before : Opened newcomers positions network)
    (fresh : position ∉ positions)
    (newcomer : newcomers[position]? = some (.replica sender profile)) :
    Opened newcomers (positions ++ [position]) (network.act position .listen).2.1 := by
  have seat := before.seats position sender profile newcomer
  simp only [fresh, ↓reduceIte] at seat
  have after : (network.act position .listen).2.1 =
      setHost
        (network.subscribe ⟨position + 1, sender, .host ⟨profile, .empty, []⟩⟩ profile.filter)
        position ⟨profile, .empty, [.attentive]⟩ := by
    simp [act, seat, atReplica]
  rw [after]
  constructor
  · simpa only [setHost, subscribe, List.length_modify] using before.size
  · intro other otherSender otherProfile found
    rw [getElem?_setHost]
    show Option.map _ network.nodes[other]? = _
    rw [before.seats other otherSender otherProfile found, Option.map_some]
    by_cases here : position = other
    · subst here
      rw [newcomer] at found
      cases found
      simp
    · have apart : other ≠ position := fun same => here same.symm
      simp [here, apart]
  · simp [setHost, subscribe, Hub.subscribe, before.endpoints]
  · intro subscription listed
    rcases List.mem_append.mp listed with earlier | last
    · exact before.queues subscription earlier
    · obtain rfl := List.mem_singleton.mp last
      rfl
  · intro other otherSender otherProfile found subscription listed endpoint
    rcases List.mem_append.mp listed with earlier | last
    · exact before.filters other otherSender otherProfile found subscription earlier endpoint
    · obtain rfl := List.mem_singleton.mp last
      obtain rfl : position = other := Nat.succ.inj endpoint
      rw [newcomer] at found
      cases found
      rfl

theorem opened_of_nodup
    {newcomers : List Newcomer}
    {positions : List Nat}
    (clock : Binary64)
    (once : positions.Nodup)
    (replicas : ∀ position ∈ positions, ∃ sender profile,
      newcomers[position]? = some (.replica sender profile)) :
    Opened newcomers positions ((ofNewcomers clock newcomers).opened positions) := by
  induction positions using List.reverseRecOn with
  | nil => exact opened_ofNewcomers clock newcomers
  | append_singleton earlier last ih =>
      rcases List.nodup_append.mp once with ⟨earlierOnce, _, apart⟩
      obtain ⟨sender, profile, newcomer⟩ :=
        replicas last (List.mem_append_right _ (List.mem_singleton_self _))
      have before := ih earlierOnce fun position member =>
        replicas position (List.mem_append_left _ member)
      have fresh : last ∉ earlier := fun member =>
        apart last member last (List.mem_singleton_self _) rfl
      have next := before.listen fresh newcomer
      simpa only [opened, List.foldl_append, List.foldl_cons, List.foldl_nil] using next

end Network

/-- Newcomers are united by a channel when they are replicas that belong to it. -/
def Channel.Unites (channel : Channel) (newcomers : List Network.Newcomer) : Prop :=
  ∀ newcomer ∈ newcomers, ∃ sender profile,
    newcomer = .replica sender profile ∧ channel.Carries sender profile

namespace Traffic

theorem replica_of_united
    {channel : Channel}
    {newcomers : List Network.Newcomer}
    (united : channel.Unites newcomers)
    {position : Nat}
    (within : position < newcomers.length) :
    ∃ sender profile,
      newcomers[position]? = some (.replica sender profile) ∧
        channel.Carries sender profile := by
  obtain ⟨sender, profile, form, carries⟩ :=
    united newcomers[position] (List.getElem_mem within)
  exact ⟨sender, profile, form ▸ List.getElem?_eq_getElem within, carries⟩

theorem opened_of_united
    {channel : Channel}
    {newcomers : List Network.Newcomer}
    {positions : List Nat}
    (clock : Binary64)
    (united : channel.Unites newcomers)
    (once : positions.Perm (List.range newcomers.length)) :
    Network.Opened newcomers positions
      ((Network.ofNewcomers clock newcomers).opened positions) := by
  apply Network.opened_of_nodup clock (once.nodup_iff.mpr List.nodup_range)
  intro position member
  have within := List.mem_range.mp (once.mem_iff.mp member)
  rcases replica_of_united united within with ⟨sender, profile, found, _⟩
  exact ⟨sender, profile, found⟩

theorem sound_start
    {channel : Channel}
    {newcomers : List Network.Newcomer}
    {positions : List Nat}
    (clock : Binary64)
    (united : channel.Unites newcomers)
    (once : positions.Perm (List.range newcomers.length)) :
    Sound channel (start ((Network.ofNewcomers clock newcomers).opened positions)) := by
  have listed : ∀ position, position ∈ positions ↔ position < newcomers.length := fun _ =>
    once.mem_iff.trans List.mem_range
  have opened := opened_of_united clock united once
  generalize (Network.ofNewcomers clock newcomers).opened positions = network at opened
  have seats : ∀ (position : Nat) (node : Node), network.nodes[position]? = some node →
      ∃ sender profile, newcomers[position]? = some (.replica sender profile) ∧
        channel.Carries sender profile ∧
        node = ⟨position + 1, sender, .host ⟨profile, .empty, [.attentive]⟩⟩ := by
    intro position node seat
    have within : position < newcomers.length :=
      opened.size ▸ (List.getElem?_eq_some_iff.mp seat).1
    rcases replica_of_united united within with ⟨sender, profile, found, carries⟩
    have expected := opened.seats position sender profile found
    simp only [(listed position).mpr within, ↓reduceIte] at expected
    exact ⟨sender, profile, found, carries, Option.some.inj (seat.symm.trans expected)⟩
  constructor
  · intro position node seat
    rcases seats position node seat with ⟨sender, profile, _, carries, rfl⟩
    exact ⟨rfl, _, rfl, carries⟩
  · show (network.hub.subscriptions.map (·.endpoint)).Nodup
    rw [opened.endpoints]
    exact (once.nodup_iff.mpr List.nodup_range).map Nat.succ_injective
  · intro position within
    show position + 1 ∈ network.hub.subscriptions.map (·.endpoint)
    rw [opened.endpoints]
    exact List.mem_map_of_mem ((listed position).mpr (opened.size ▸ within))
  · intro ticket member
    cases member
  · intro position node host subscription seat member kept endpoint
    rcases seats position node seat with ⟨sender, profile, found, _, rfl⟩
    cases member
    have store : subscription.waiting = [] := by
      rw [Subscription.waiting, opened.queues subscription kept]
      rfl
    refine ⟨rfl, opened.filters position sender profile found subscription kept endpoint, ?_,
      [], rfl, ?_⟩
    · rw [store]
      exact fun _ among => absurd among List.not_mem_nil
    · intro operation
      rw [store]
      rfl

/-- Where nothing is in store and nothing is outstanding, what was heard is what was accepted. -/
theorem Balanced.reflects
    {tickets : List Ticket}
    {accepted : List Operation}
    {position : Nat}
    {host : Host}
    {subscription : Subscription}
    (balanced : Balanced tickets accepted position host subscription)
    (nothing : tickets = [])
    (drained : subscription.queue = []) :
    host.replica.Reflects accepted := by
  rcases balanced.history with ⟨heard, replayed, balance⟩
  have store : subscription.waiting = [] := by
    rw [Subscription.waiting, drained]
    rfl
  rw [replayed]
  apply (Replica.reflects_replay heard).of_perm
  apply Operation.perm_of_tally
  intro operation
  rw [← balance operation, nothing, store]
  rfl

/--
Replicas of a channel that have all listened once, before anything else, have
converged whenever their network is idle: after any changes, publications and
deliveries in any order, each replica reflects exactly the accepted operations.
-/
theorem hub_converges
    {channel : Channel}
    {newcomers : List Network.Newcomer}
    {positions : List Nat}
    {moves : List Move}
    {final : Traffic}
    (clock : Binary64)
    (united : channel.Unites newcomers)
    (once : positions.Perm (List.range newcomers.length))
    (ran : final = (start ((Network.ofNewcomers clock newcomers).opened positions)).run moves)
    (idle : final.Idle) :
    ∀ position, position < newcomers.length →
      ∃ node host, final.network.hostAt? position = some (node, host) ∧
        host.replica.Reflects final.accepted := by
  have sound : Sound channel final := ran ▸ (sound_start clock united once).run moves
  have size : final.network.nodes.length = newcomers.length := by
    rw [ran, length_nodes_run]
    exact (opened_of_united clock united once).size
  intro position within
  have seat := List.getElem?_eq_getElem (l := final.network.nodes) (size ▸ within)
  rcases sound.nodes position _ seat with ⟨_, host, member, _⟩
  rcases List.mem_map.mp (sound.all position (size ▸ within)) with ⟨subscription, listed, endpoint⟩
  have balanced := sound.books position _ host subscription seat member listed endpoint
  exact ⟨_, host, Network.hostAt?_eq seat member,
    balanced.reflects idle.1 (idle.2 subscription listed)⟩

/--
Two replicas, of which one adds an element while the other counts. Both changes
are made before either is published, the later one is published first, and the
queues of the two subscriptions are emptied in turn.
-/
theorem hub_converges_two :
    ∃ (newcomers : List Network.Newcomer) (positions : List Nat) (moves : List Move)
      (final : Traffic),
      newcomers =
          [.replica "a" ⟨.standard, .sealing, .owner "a"⟩,
            .replica "b" ⟨.standard, .sealing, .owner "b"⟩] ∧
        positions = [1, 0] ∧
        moves =
          [.apply 0 (.setAdd "k" "e"), .apply 1 (.counterIncrement "c" 2), .publish 1,
            .publish 0, .deliver 1, .deliver 0, .deliver 0, .deliver 1] ∧
        final = (start ((Network.ofNewcomers 0 newcomers).opened positions)).run moves ∧
        final.Idle ∧
        final.accepted = [.setAdd "k" "e", .counterIncrement "c" 2] ∧
        ∀ position, position < newcomers.length →
          ∃ node host, final.network.hostAt? position = some (node, host) ∧
            host.replica.Reflects final.accepted := by
  have united : Channel.Unites ⟨1, "nostr-crdt", true⟩
      [.replica "a" ⟨.standard, .sealing, .owner "a"⟩,
        .replica "b" ⟨.standard, .sealing, .owner "b"⟩] := by
    intro newcomer member
    rcases List.mem_cons.mp member with rfl | later
    · exact ⟨_, _, rfl, by decide +kernel, rfl, rfl, "a", rfl, fun _ => rfl⟩
    · obtain rfl := List.mem_singleton.mp later
      exact ⟨_, _, rfl, by decide +kernel, rfl, rfl, "b", rfl, fun _ => rfl⟩
  have once : [1, 0].Perm (List.range 2) := by decide
  let final : Traffic :=
    run
      [.apply 0 (.setAdd "k" "e"), .apply 1 (.counterIncrement "c" 2), .publish 1,
        .publish 0, .deliver 1, .deliver 0, .deliver 0, .deliver 1]
      (start
        ((Network.ofNewcomers 0
          [.replica "a" ⟨.standard, .sealing, .owner "a"⟩,
            .replica "b" ⟨.standard, .sealing, .owner "b"⟩]).opened [1, 0]))
  have idle : final.Idle := by decide +kernel
  have accepted : final.accepted = [.setAdd "k" "e", .counterIncrement "c" 2] := by
    decide +kernel
  exact ⟨_, _, _, final, rfl, rfl, rfl, rfl, idle, accepted, hub_converges 0 united once rfl idle⟩

end Traffic

end ConvergentStore
