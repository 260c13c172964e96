import ConvergentStore.Proofs.Channel.Queue
import ConvergentStore.Proofs.Text.Separator
import Mathlib.Data.List.Nodup

/-!
# Gatherings on a hub

Endpoints join a hub, open subscriptions on it, publish and receive, in any
order. One sequence of numbers counts endpoints and publications, so that no two
endpoints have the same number and no two publications the same identifier,
whatever names their senders have (`Sound`). A subscription receives what the
other endpoints have published since it was opened and its filter lets through,
all of it once and in order (`receives_what_others_publish`).
-/

namespace ConvergentStore

/-! ## Identifiers -/

/-- The number in an identifier can be told from it, whatever the sender is called. -/
theorem Hub.eq_of_identifier_eq
    {left right : String}
    {first second : Nat}
    (same : left ++ "-" ++ Nat.repr first = right ++ "-" ++ Nat.repr second) :
    first = second := by
  have unmarked : ∀ n : Nat, '-' ∉ (Nat.toDigits 10 n).reverse := by
    intro n member
    have digit := Nat.isDigit_of_mem_toDigits (by decide) (by decide) (List.mem_reverse.mp member)
    revert digit
    decide
  -- Read from its end, an identifier is cut before the sender's name.
  have cut : ∀ (n : Nat) (name : String),
      Text.cut ['-'] (name ++ "-" ++ Nat.repr n).toList.reverse =
        ((Nat.toDigits 10 n).reverse, some name.toList.reverse) := by
    intro n name
    rw [String.toList_append, String.toList_append, Nat.toList_repr, List.reverse_append,
      List.reverse_append, ← List.append_assoc]
    exact Text.cut_append (unmarked n) _
  have pieces := cut first left
  rw [same, cut second right] at pieces
  have digits := List.reverse_injective (congrArg Prod.fst pieces)
  calc
    first = Nat.ofDigitChars 10 (Nat.toDigits 10 first) 0 :=
      Nat.ofDigitChars_ten_toDigits.symm
    _ = Nat.ofDigitChars 10 (Nat.toDigits 10 second) 0 := by rw [digits]
    _ = second := Nat.ofDigitChars_ten_toDigits

/-! ## Gatherings -/

/-- An endpoint of a hub, with the name it publishes under. -/
structure Endpoint where
  number : Nat
  sender : String

/-- What the endpoint at a position published, with the identifier that it was told. -/
structure Posting where
  position : Nat
  sender : String
  outbound : Outbound
  id : String

/-- The message that is delivered of what was published. -/
def Posting.message (posting : Posting) : Message :=
  posting.outbound.toMessage posting.id posting.sender

/-- Endpoints on a hub. -/
structure Gathering where
  hub : Hub
  /-- The endpoints, in the order in which they joined. -/
  endpoints : List Endpoint
  /-- What each subscription has received, in the order in which they were opened. -/
  received : List (List Message)
  /-- What was published, in turn. -/
  postings : List Posting

namespace Gathering

/-- The gathering before the first endpoint. -/
def start : Gathering :=
  ⟨.empty, [], [], []⟩

/-- What happens at a gathering, one thing at a time. -/
inductive Move where
  | join (sender : String)
  | subscribe (position : Nat) (filter : Filter)
  | publish (position : Nat) (outbound : Outbound)
  /-- A subscription, known by how many were opened before it, takes what is next in its queue. -/
  | receive (index : Nat)

/-- One more endpoint joins. -/
def join (gathering : Gathering) (sender : String) : Gathering :=
  let (number, hub) := gathering.hub.join
  { gathering with hub, endpoints := gathering.endpoints ++ [⟨number, sender⟩] }

/-- An endpoint opens a subscription. -/
def subscribe (gathering : Gathering) (endpoint : Endpoint) (filter : Filter) : Gathering :=
  { gathering with
    hub := gathering.hub.subscribe endpoint.number filter
    received := gathering.received ++ [[]] }

/-- An endpoint, known by its position, publishes a message. -/
def publish
    (gathering : Gathering)
    (position : Nat)
    (endpoint : Endpoint)
    (outbound : Outbound) : Gathering :=
  let (id, hub) := gathering.hub.publish endpoint.number endpoint.sender outbound
  { gathering with
    hub
    postings := gathering.postings ++ [⟨position, endpoint.sender, outbound, id⟩] }

/-- A subscription has taken what was next in its queue, and is left as it is then. -/
def receive
    (gathering : Gathering)
    (index : Nat)
    (message? : Option Message)
    (rest : Subscription) : Gathering :=
  { gathering with
    hub := { gathering.hub with subscriptions := gathering.hub.subscriptions.set index rest }
    received := gathering.received.modify index (· ++ message?.toList) }

/-- The gathering after a move; a move that is not possible changes nothing. -/
def move (gathering : Gathering) : Move → Gathering
  | .join sender => gathering.join sender
  | .subscribe position filter =>
      match gathering.endpoints[position]? with
      | none => gathering
      | some endpoint => gathering.subscribe endpoint filter
  | .publish position outbound =>
      match gathering.endpoints[position]? with
      | none => gathering
      | some endpoint => gathering.publish position endpoint outbound
  | .receive index =>
      match gathering.hub.subscriptions[index]? with
      | none => gathering
      | some subscription =>
          match subscription.next? with
          | none => gathering
          | some (message?, rest) => gathering.receive index message? rest

/-- The gathering after moves in turn. -/
def moved (gathering : Gathering) (moves : List Move) : Gathering :=
  moves.foldl move gathering

/-- The gathering after moves in turn, from the beginning. -/
def run (moves : List Move) : Gathering :=
  start.moved moves

/-- The gathering after a subscription has taken all that is in its queue. -/
def drain (gathering : Gathering) (index : Nat) : Gathering :=
  match gathering.hub.subscriptions[index]? with
  | none => gathering
  | some subscription =>
      gathering.moved (List.replicate subscription.queue.length (.receive index))

/-- What a gathering can become by a move. -/
inductive Becomes (gathering : Gathering) : Gathering → Prop where
  | unchanged : gathering.Becomes gathering
  | joined (sender : String) : gathering.Becomes (gathering.join sender)
  | subscribed
      {position : Nat}
      {endpoint : Endpoint}
      (owner : gathering.endpoints[position]? = some endpoint)
      (filter : Filter) :
      gathering.Becomes (gathering.subscribe endpoint filter)
  | published
      {position : Nat}
      {endpoint : Endpoint}
      (found : gathering.endpoints[position]? = some endpoint)
      (outbound : Outbound) :
      gathering.Becomes (gathering.publish position endpoint outbound)
  | received
      {index : Nat}
      {subscription rest : Subscription}
      {message? : Option Message}
      (found : gathering.hub.subscriptions[index]? = some subscription)
      (next : subscription.next? = some (message?, rest)) :
      gathering.Becomes (gathering.receive index message? rest)

theorem becomes_move
    (gathering : Gathering)
    (next : Move) :
    gathering.Becomes (gathering.move next) := by
  cases next with
  | join sender => exact .joined sender
  | subscribe position filter =>
      simp only [move]
      split
      · exact .unchanged
      · next owner => exact .subscribed owner filter
  | publish position outbound =>
      simp only [move]
      split
      · exact .unchanged
      · next found => exact .published found outbound
  | receive index =>
      simp only [move]
      split
      · exact .unchanged
      · next found =>
          split
          · exact .unchanged
          · next next => exact .received found next

/-- What holds of a gathering and is kept by every move holds after moves in turn. -/
theorem moved_induction
    {motive : Gathering → Prop}
    {gathering : Gathering}
    (before : motive gathering)
    (kept : ∀ {early later}, motive early → early.Becomes later → motive later)
    (moves : List Move) :
    motive (gathering.moved moves) := by
  induction moves generalizing gathering with
  | nil => exact before
  | cons next rest ih => exact ih (kept before (becomes_move gathering next))

/-! ## Soundness -/

/-- What holds at every gathering. -/
structure Sound (gathering : Gathering) : Prop where
  counted : ∀ endpoint ∈ gathering.endpoints, endpoint.number ≤ gathering.hub.sequence
  /-- No two endpoints have the same number. -/
  apart : (gathering.endpoints.map (·.number)).Nodup
  aligned : gathering.received.length = gathering.hub.subscriptions.length
  identified : ∀ posting ∈ gathering.postings, ∃ number ≤ gathering.hub.sequence,
    posting.id = posting.sender ++ "-" ++ Nat.repr number
  /-- No two publications have the same identifier. -/
  distinct : (gathering.postings.map (·.id)).Nodup

theorem Sound.start : Gathering.start.Sound where
  counted := fun _ among => absurd among List.not_mem_nil
  apart := .nil
  aligned := rfl
  identified := fun _ among => absurd among List.not_mem_nil
  distinct := .nil

theorem nodup_map_concat
    {Item Value : Type}
    {value : Item → Value}
    {items : List Item}
    {last : Item}
    (nodup : (items.map value).Nodup)
    (fresh : ∀ item ∈ items, value item ≠ value last) :
    ((items ++ [last]).map value).Nodup := by
  rw [List.map_append, List.map_singleton, List.nodup_append]
  refine ⟨nodup, List.nodup_singleton _, ?_⟩
  intro early earlier late isLast
  rw [List.mem_singleton.mp isLast]
  rcases List.mem_map.mp earlier with ⟨item, among, rfl⟩
  exact fresh item among

section

variable {gathering : Gathering}

theorem Sound.join
    (sound : gathering.Sound)
    (sender : String) :
    (gathering.join sender).Sound where
  counted := by
    intro endpoint among
    rcases List.mem_append.mp among with earlier | last
    · exact Nat.le_succ_of_le (sound.counted endpoint earlier)
    · rw [List.mem_singleton.mp last]
      exact Nat.le_refl _
  apart := by
    refine nodup_map_concat sound.apart ?_
    intro endpoint among
    exact Nat.ne_of_lt (Nat.lt_succ_of_le (sound.counted endpoint among))
  aligned := sound.aligned
  identified := by
    intro posting among
    rcases sound.identified posting among with ⟨number, least, named⟩
    exact ⟨number, Nat.le_succ_of_le least, named⟩
  distinct := sound.distinct

theorem Sound.subscribe
    (sound : gathering.Sound)
    (endpoint : Endpoint)
    (filter : Filter) :
    (gathering.subscribe endpoint filter).Sound where
  counted := sound.counted
  apart := sound.apart
  aligned := by
    show (gathering.received ++ [[]]).length =
      (gathering.hub.subscriptions ++ [_]).length
    rw [List.length_append, List.length_append, sound.aligned]
    rfl
  identified := sound.identified
  distinct := sound.distinct

theorem Sound.publish
    (sound : gathering.Sound)
    (position : Nat)
    (endpoint : Endpoint)
    (outbound : Outbound) :
    (gathering.publish position endpoint outbound).Sound where
  counted := fun other among => Nat.le_succ_of_le (sound.counted other among)
  apart := sound.apart
  aligned := sound.aligned.trans (List.length_map _).symm
  identified := by
    intro posting among
    rcases List.mem_append.mp among with earlier | last
    · rcases sound.identified posting earlier with ⟨number, least, named⟩
      exact ⟨number, Nat.le_succ_of_le least, named⟩
    · rw [List.mem_singleton.mp last]
      exact ⟨gathering.hub.sequence + 1, Nat.le_refl _, rfl⟩
  distinct := by
    refine nodup_map_concat sound.distinct ?_
    intro posting among same
    rcases sound.identified posting among with ⟨number, least, named⟩
    have equal := Hub.eq_of_identifier_eq (named.symm.trans same)
    omega

theorem Sound.receive
    (sound : gathering.Sound)
    (index : Nat)
    (message? : Option Message)
    (rest : Subscription) :
    (gathering.receive index message? rest).Sound where
  counted := sound.counted
  apart := sound.apart
  aligned := by
    show (gathering.received.modify index _).length =
      (gathering.hub.subscriptions.set index rest).length
    rw [List.length_modify, List.length_set, sound.aligned]
  identified := sound.identified
  distinct := sound.distinct

theorem Sound.kept
    (sound : gathering.Sound)
    {later : Gathering}
    (becomes : gathering.Becomes later) :
    later.Sound := by
  cases becomes with
  | unchanged => exact sound
  | joined sender => exact sound.join sender
  | subscribed _ filter => exact sound.subscribe _ filter
  | published _ outbound => exact sound.publish _ _ outbound
  | received => exact sound.receive _ _ _

end

theorem sound_run (moves : List Move) : (run moves).Sound :=
  moved_induction .start (fun sound becomes => sound.kept becomes) moves

/-! ## Subscriptions -/

/--
What a subscription of the endpoint at a position is to receive: what others
have published beyond the first so many publications, if its filter admits it.
-/
def owed
    (gathering : Gathering)
    (position : Nat)
    (filter : Filter)
    (beyond : Nat) : List Message :=
  ((gathering.postings.drop beyond).filter fun posting =>
    posting.position != position && filter.admits posting.message).map (·.message)

/-- How a subscription stands that was opened after so many publications. -/
structure Serves
    (gathering : Gathering)
    (index position : Nat)
    (filter : Filter)
    (beyond : Nat)
    (endpoint : Endpoint)
    (subscription : Subscription)
    (taken : List Message) : Prop where
  owner : gathering.endpoints[position]? = some endpoint
  opened : gathering.hub.subscriptions[index]? = some subscription
  past : gathering.received[index]? = some taken
  number : subscription.endpoint = endpoint.number
  choice : subscription.filter = filter
  since : beyond ≤ gathering.postings.length
  /-- What it has received and has in store is what it is to receive. -/
  balance : taken ++ subscription.waiting = gathering.owed position filter beyond

/-- Whether a subscription that was opened after so many publications is served. -/
def Served
    (gathering : Gathering)
    (index position : Nat)
    (filter : Filter)
    (beyond : Nat) : Prop :=
  ∃ endpoint subscription taken,
    gathering.Serves index position filter beyond endpoint subscription taken

section

variable {gathering : Gathering} {index position beyond : Nat} {filter : Filter}

theorem served_subscribe
    (sound : gathering.Sound)
    {endpoint : Endpoint}
    (owner : gathering.endpoints[position]? = some endpoint) :
    (gathering.subscribe endpoint filter).Served gathering.received.length position filter
      gathering.postings.length := by
  refine ⟨endpoint, ⟨endpoint.number, filter, []⟩, [], owner, ?_, ?_, rfl, rfl, Nat.le_refl _, ?_⟩
  · rw [sound.aligned]
    exact List.getElem?_concat_length
  · exact List.getElem?_concat_length
  · rw [Gathering.owed]
    show [] = ((gathering.postings.drop gathering.postings.length).filter _).map _
    rw [List.drop_length]
    rfl

theorem getElem?_append_of_eq_some
    {Item : Type}
    {first second : List Item}
    {place : Nat}
    {item : Item}
    (found : first[place]? = some item) :
    (first ++ second)[place]? = some item := by
  rw [List.getElem?_append_left (List.getElem?_eq_some_iff.mp found).1]
  exact found

/-- Endpoints have the same number if and only if they have the same position. -/
theorem Sound.number_bne
    (sound : gathering.Sound)
    {own other : Nat}
    {self publisher : Endpoint}
    (owner : gathering.endpoints[own]? = some self)
    (found : gathering.endpoints[other]? = some publisher) :
    (publisher.number != self.number) = (other != own) := by
  rw [Bool.eq_iff_iff, bne_iff_ne, bne_iff_ne]
  refine not_congr ⟨?_, ?_⟩
  · intro same
    have within : other < (gathering.endpoints.map (·.number)).length := by
      rw [List.length_map]
      exact (List.getElem?_eq_some_iff.mp found).1
    refine (List.getElem?_inj within sound.apart).mp ?_
    rw [List.getElem?_map, List.getElem?_map, found, owner]
    exact congrArg some same
  · rintro rfl
    rw [owner] at found
    cases found
    rfl

variable {endpoint : Endpoint} {subscription : Subscription} {taken : List Message}

theorem Serves.join
    (serves : gathering.Serves index position filter beyond endpoint subscription taken)
    (sender : String) :
    (gathering.join sender).Serves index position filter beyond endpoint subscription taken :=
  { serves with owner := getElem?_append_of_eq_some serves.owner }

theorem Serves.subscribe
    (serves : gathering.Serves index position filter beyond endpoint subscription taken)
    (other : Endpoint)
    (choice : Filter) :
    (gathering.subscribe other choice).Serves index position filter beyond endpoint
      subscription taken :=
  { serves with
    opened := getElem?_append_of_eq_some serves.opened
    past := getElem?_append_of_eq_some serves.past }

/-- A publication is put into the queue, and received if and only if it is owed. -/
theorem Serves.publish
    (sound : gathering.Sound)
    (serves : gathering.Serves index position filter beyond endpoint subscription taken)
    {other : Nat}
    {publisher : Endpoint}
    (found : gathering.endpoints[other]? = some publisher)
    (outbound : Outbound) :
    (gathering.publish other publisher outbound).Served index position filter beyond := by
  let id := gathering.hub.nextId publisher.sender
  let posting : Posting := ⟨other, publisher.sender, outbound, id⟩
  let delivery : Delivery := ⟨publisher.number, posting.message⟩
  refine ⟨endpoint, { subscription with queue := subscription.queue ++ [delivery] }, taken,
    serves.owner, ?_, serves.past, serves.number, serves.choice, ?_, ?_⟩
  · show (gathering.hub.subscriptions.map _)[index]? = _
    rw [List.getElem?_map, serves.opened]
    rfl
  · show beyond ≤ (gathering.postings ++ [posting]).length
    rw [List.length_append]
    exact Nat.le_add_right_of_le serves.since
  · have passes : subscription.receives delivery =
        (posting.position != position && filter.admits posting.message) := by
      rw [Subscription.receives, serves.number, serves.choice]
      exact congrArg (· && _) (sound.number_bne serves.owner found)
    rw [Subscription.waiting_concat, ← List.append_assoc, serves.balance, passes]
    show _ = (((gathering.postings ++ [posting]).drop beyond).filter _).map _
    rw [List.drop_append_of_le_length serves.since, List.filter_append, List.map_append]
    refine congrArg (gathering.owed position filter beyond ++ ·) ?_
    rw [List.filter_singleton]
    cases posting.position != position && filter.admits posting.message <;> rfl

/-- A subscription takes a message from those it has in store. -/
theorem Serves.receive
    (serves : gathering.Serves index position filter beyond endpoint subscription taken)
    {other : Nat}
    {queue rest : Subscription}
    {message? : Option Message}
    (found : gathering.hub.subscriptions[other]? = some queue)
    (next : queue.next? = some (message?, rest)) :
    (gathering.receive other message? rest).Served index position filter beyond := by
  by_cases own : other = index
  · subst own
    rw [serves.opened] at found
    cases found
    rcases Subscription.waiting_of_next? next with ⟨number, choice, store⟩
    refine ⟨endpoint, rest, taken ++ message?.toList, serves.owner, ?_, ?_,
      number.trans serves.number, choice.trans serves.choice, serves.since, ?_⟩
    · exact List.getElem?_set_self (List.getElem?_eq_some_iff.mp serves.opened).1
    · show (gathering.received.modify other _)[other]? = _
      rw [List.getElem?_modify_eq, serves.past]
      rfl
    · rw [List.append_assoc, ← store]
      exact serves.balance
  · refine ⟨endpoint, subscription, taken, serves.owner, ?_, ?_, serves.number, serves.choice,
      serves.since, serves.balance⟩
    · exact (List.getElem?_set_ne own).trans serves.opened
    · exact (List.getElem?_modify_ne _ _ own).trans serves.past

theorem Served.kept
    (sound : gathering.Sound)
    (served : gathering.Served index position filter beyond)
    {later : Gathering}
    (becomes : gathering.Becomes later) :
    later.Served index position filter beyond := by
  rcases served with ⟨endpoint, subscription, taken, serves⟩
  cases becomes with
  | unchanged => exact ⟨endpoint, subscription, taken, serves⟩
  | joined sender => exact ⟨endpoint, subscription, taken, serves.join sender⟩
  | subscribed _ choice => exact ⟨endpoint, subscription, taken, serves.subscribe _ choice⟩
  | published found outbound => exact serves.publish sound found outbound
  | received found next => exact serves.receive found next

theorem Served.moved
    (sound : gathering.Sound)
    (served : gathering.Served index position filter beyond)
    (moves : List Move) :
    (gathering.moved moves).Served index position filter beyond := by
  have both : ∀ {early later : Gathering},
      early.Sound ∧ early.Served index position filter beyond → early.Becomes later →
        later.Sound ∧ later.Served index position filter beyond := by
    rintro early later ⟨sound, served⟩ becomes
    exact ⟨sound.kept becomes, served.kept sound becomes⟩
  exact (moved_induction ⟨sound, served⟩ both moves).2

/-! ## Draining -/

/-- A subscription that takes as much as is in its queue empties it. -/
theorem moved_receive
    {subscription : Subscription}
    (opened : gathering.hub.subscriptions[index]? = some subscription)
    {count : Nat}
    (all : subscription.queue.length = count) :
    (gathering.moved (List.replicate count (.receive index))).postings = gathering.postings ∧
      ∃ rest, (gathering.moved (List.replicate count (.receive index))).hub.subscriptions[index]? =
          some rest ∧
        rest.queue = [] := by
  induction count generalizing gathering subscription with
  | zero => exact ⟨rfl, subscription, opened, List.length_eq_zero_iff.mp all⟩
  | succ count ih =>
      rcases subscription with ⟨endpoint, filter, queue⟩
      cases queue with
      | nil => cases all
      | cons delivery later =>
          let rest : Subscription := ⟨endpoint, filter, later⟩
          let message? := if rest.receives delivery then some delivery.message else none
          have next : Subscription.next? ⟨endpoint, filter, delivery :: later⟩ =
            some (message?, rest) := rfl
          have stepped : gathering.move (.receive index) =
              gathering.receive index message? rest := by
            simp only [move, opened, next]
          have left : (gathering.receive index message? rest).hub.subscriptions[index]? =
              some rest :=
            List.getElem?_set_self (List.getElem?_eq_some_iff.mp opened).1
          rw [List.replicate_succ, Gathering.moved, List.foldl_cons, stepped]
          exact ih left (Nat.succ.inj all)

/-- Once it is drained, a subscription has received all that it was to receive. -/
theorem Served.drain
    (sound : gathering.Sound)
    (served : gathering.Served index position filter beyond) :
    (gathering.drain index).received[index]? =
      some (gathering.owed position filter beyond) := by
  have start := served
  rcases start with ⟨_, subscription, _, before⟩
  rcases moved_receive before.opened rfl with ⟨same, rest, left, empty⟩
  rcases served.moved sound
    (List.replicate subscription.queue.length (.receive index)) with ⟨_, last, taken, after⟩
  have none : last.waiting = [] := by
    have lastIsRest := after.opened.symm.trans left
    rw [Subscription.waiting, Option.some.inj lastIsRest, empty]
    rfl
  have all := after.balance
  rw [none, List.append_nil, owed, same] at all
  rw [Gathering.drain, before.opened]
  exact after.past.trans (congrArg some all)

end

/-! ## Deliveries -/

section

variable {gathering : Gathering}

theorem Sound.owed_nodup
    (sound : gathering.Sound)
    (position : Nat)
    (filter : Filter)
    (beyond : Nat) :
    ((gathering.owed position filter beyond).map (·.id)).Nodup := by
  rw [owed, List.map_map]
  have part : ((gathering.postings.drop beyond).filter fun posting =>
      posting.position != position && filter.admits posting.message).Sublist
        gathering.postings :=
    List.filter_sublist.trans (List.drop_sublist _ _)
  exact sound.distinct.sublist (part.map _)

theorem Sound.own_not_mem_owed
    (sound : gathering.Sound)
    (filter : Filter)
    (beyond : Nat)
    {posting : Posting}
    (among : posting ∈ gathering.postings) :
    posting.message ∉ gathering.owed posting.position filter beyond := by
  intro delivered
  rcases List.mem_map.mp delivered with ⟨other, passed, same⟩
  rcases List.mem_filter.mp passed with ⟨later, foreign⟩
  have equal : other = posting :=
    List.inj_on_of_nodup_map sound.distinct (List.mem_of_mem_drop later) among
      (congrArg Message.id same)
  rw [equal, bne_self_eq_false, Bool.false_and] at foreign
  cases foreign

end

/--
A subscription receives, once it is drained, exactly what the other endpoints
have published since it was opened and its filter admits, in turn and each
message once. It receives nothing of its own endpoint, whatever the endpoints
are called. The hub's sequence is a natural number here; a counter of binary64
numbers shows the same numbers for every run that has fewer than `2 ^ 53`
endpoints and publications (`Numbered.named_counted`), and stands still after
(`Binary64.counted_eq`).
-/
theorem receives_what_others_publish
    {before : List Move}
    {position : Nat}
    (joined : position < (run before).endpoints.length)
    (filter : Filter)
    (after : List Move) :
    let index := (run before).received.length
    let final := run (before ++ .subscribe position filter :: after)
    let owed := final.owed position filter (run before).postings.length
    (final.drain index).received[index]? = some owed ∧
      (owed.map (·.id)).Nodup ∧
      (∀ posting ∈ final.postings, posting.position = position → posting.message ∉ owed) ∧
      (final.endpoints.map (·.number)).Nodup := by
  intro index final owed
  have sound : final.Sound := sound_run _
  have owner := List.getElem?_eq_getElem joined
  have opened : (run before).move (.subscribe position filter) =
      (run before).subscribe (run before).endpoints[position] filter := by
    simp only [move, owner]
  have ran : final = ((run before).subscribe (run before).endpoints[position] filter).moved
      after := by
    rw [← opened]
    exact List.foldl_append
  have served : final.Served index position filter (run before).postings.length := by
    rw [ran]
    refine (served_subscribe (sound_run before) owner).moved ?_ after
    exact (sound_run before).subscribe _ filter
  refine ⟨served.drain sound, sound.owed_nodup _ _ _, ?_, sound.apart⟩
  rintro posting among rfl
  exact sound.own_not_mem_owed filter _ among

/-- Of three publications a subscription receives that of a namesake, and not its own. -/
theorem receives_what_others_publish_namesake :
    let before : List Move := [.join "alice", .join "alice", .publish 1 ⟨1, "early", []⟩]
    let after : List Move :=
      [.publish 1 ⟨1, "hello", [["t", "x"]]⟩, .publish 0 ⟨1, "own", [["t", "x"]]⟩,
        .publish 1 ⟨2, "other kind", [["t", "x"]]⟩]
    let final := run (before ++ .subscribe 0 ⟨[1], ["x"]⟩ :: after)
    0 < (run before).endpoints.length ∧
      (final.drain 0).received[0]? = some [⟨"alice-4", 1, "alice", "hello", [["t", "x"]]⟩] := by
  refine ⟨by decide +kernel, ?_⟩
  refine (receives_what_others_publish (by decide +kernel) _ _).1.trans ?_
  decide +kernel

end Gathering

end ConvergentStore
