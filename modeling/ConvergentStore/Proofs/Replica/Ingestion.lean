import ConvergentStore.Proofs.Replica.Delivery
import Mathlib.Data.List.TakeWhile

/-!
# Ingestion of messages

What a message does to a replica is decided by what it is decoded to, and that
does not depend on the replica. So messages that are taken in one after another
are a history, and replicas that take in the same messages agree as replicas
with the same history do. A listener takes in the messages before the first one
that breaks it: `ingestion_converges` says that listeners which are given the
same messages agree exactly when none of them breaks a listener, or none of
them can be used.
-/

namespace ConvergentStore.Profile

open Binary64 (largestSafe)

/-! ## One message -/

/--
What a message can come to: it is passed over, its payload cannot be had, or the
operation that it carries is applied or refused.
-/
inductive Ingested (profile : Profile) (message : Message) (replica : Replica) :
    Except Fault (Arrival × Replica) → Prop
  | ignored {reason : Ignored} (screened : profile.screen message = some reason) :
      Ingested profile message replica (.ok (.ignored reason, replica))
  | failed {fault : Fault}
      (screened : profile.screen message = none)
      (extracted : profile.extract message = .error fault) :
      Ingested profile message replica (.error fault)
  | applied {operation : Operation} {next : Replica}
      (screened : profile.screen message = none)
      (extracted : profile.extract message = .ok operation)
      (accepted : replica.apply operation = .ok next) :
      Ingested profile message replica (.ok (.applied operation, next))
  | refused {operation : Operation} {refusal : Refusal}
      (screened : profile.screen message = none)
      (extracted : profile.extract message = .ok operation)
      (declined : replica.apply operation = .error refusal) :
      Ingested profile message replica (.error (.refused refusal))

theorem ingested (profile : Profile) (message : Message) (replica : Replica) :
    profile.Ingested message replica (profile.ingest message replica) := by
  cases screened : profile.screen message with
  | some reason =>
      rw [ingest, screened]
      exact .ignored screened
  | none =>
      cases extracted : profile.extract message with
      | error fault =>
          have failed : profile.ingest message replica = .error fault := by
            simp [ingest, screened, extracted, bind, Except.bind]
          rw [failed]
          exact .failed screened extracted
      | ok operation =>
          rw [ingest_of_extract screened extracted]
          cases applied : replica.apply operation with
          | ok next => exact .applied screened extracted applied
          | error refusal => exact .refused screened extracted applied

/-- A message that is answered as applied has applied its operation. -/
theorem apply_of_ingest
    {profile : Profile}
    {message : Message}
    {operation : Operation}
    {replica next : Replica}
    (applied : profile.ingest message replica = .ok (.applied operation, next)) :
    replica.apply operation = .ok next := by
  have ingested := profile.ingested message replica
  rw [applied] at ingested
  cases ingested with
  | applied screened extracted accepted => exact accepted

/-- The operation that a message carries to a replica, if it can be used. -/
def decoded? (profile : Profile) (message : Message) : Option Operation :=
  match profile.screen message with
  | some _ => none
  | none => (profile.extract message).toOption

theorem decoded?_eq_some_iff
    {profile : Profile}
    {message : Message}
    {operation : Operation} :
    profile.decoded? message = some operation ↔
      profile.screen message = none ∧ profile.extract message = .ok operation := by
  rw [decoded?]
  cases profile.screen message with
  | some reason => simp
  | none => cases profile.extract message <;> simp [Except.toOption]

/-- A message carries the operation that its payload is decoded to. -/
theorem extract_eq_ok_iff
    {profile : Profile}
    {message : Message}
    {operation : Operation} :
    profile.extract message = .ok operation ↔
      ∃ plaintext, profile.reveal message = .ok plaintext ∧
        Operation.decode plaintext = .ok operation := by
  constructor
  · intro extracted
    rcases Operation.ok_of_bind_eq_ok extracted with ⟨plaintext, revealed, read⟩
    exact ⟨plaintext, revealed, Operation.ok_of_mapError_eq_ok read⟩
  · rintro ⟨plaintext, revealed, read⟩
    simp [extract, revealed, read, Except.mapError, bind, Except.bind]

/-- Whether a message breaks the listener that it is delivered to. -/
def breaks (profile : Profile) (message : Message) : Bool :=
  match profile.screen message, profile.extract message with
  | none, .error fault => fault.breaksListener
  | _, _ => false

theorem not_breaks_of_decoded?
    {profile : Profile}
    {message : Message}
    {operation : Operation}
    (carried : profile.decoded? message = some operation) :
    profile.breaks message = false := by
  rcases decoded?_eq_some_iff.mp carried with ⟨screened, extracted⟩
  simp only [breaks, screened, extracted]

/-- A message that breaks a listener carries no operation. -/
theorem decoded?_eq_none_of_breaks
    {profile : Profile}
    {message : Message}
    (broken : profile.breaks message = true) :
    profile.decoded? message = none := by
  cases carried : profile.decoded? message with
  | none => rfl
  | some operation =>
      rw [not_breaks_of_decoded? carried] at broken
      cases broken

/-- A decoded operation may travel. -/
theorem mayTravel_of_extract
    {profile : Profile}
    {message : Message}
    {operation : Operation}
    (extracted : profile.extract message = .ok operation) :
    operation.MayTravel := by
  rcases extract_eq_ok_iff.mp extracted with ⟨_, _, read⟩
  exact Operation.mayTravel_of_decode read

theorem mayTravel_of_decoded?
    {profile : Profile}
    {message : Message}
    {operation : Operation}
    (carried : profile.decoded? message = some operation) :
    operation.MayTravel :=
  mayTravel_of_extract (decoded?_eq_some_iff.mp carried).2

/-- A message commits the operation that it carries, if it carries one. -/
theorem received_eq
    (profile : Profile)
    (message : Message)
    (replica : Replica) :
    profile.received message replica =
      Replica.replay (profile.decoded? message).toList replica := by
  have ingested := profile.ingested message replica
  rw [received]
  generalize profile.ingest message replica = result at ingested ⊢
  cases ingested with
  | ignored screened => simp [decoded?, screened, Replica.replay]
  | failed screened extracted =>
      simp [decoded?, screened, extracted, Except.toOption, Replica.replay]
  | applied screened extracted accepted =>
      simp [decoded?, screened, extracted, accepted, Except.toOption, Replica.replay,
        Replica.commit]
  | refused screened extracted declined =>
      simp [decoded?, screened, extracted, declined, Except.toOption, Replica.replay,
        Replica.commit]

/-- A listener has what the message leaves, and is broken only by a message that breaks. -/
theorem absorb_eq
    (profile : Profile)
    (message : Message)
    (replica : Replica) :
    (profile.absorb message replica).replica = profile.received message replica ∧
      (profile.absorb message replica).listener =
        if profile.breaks message then .broken else .attentive := by
  have ingested := profile.ingested message replica
  rw [absorb, received, breaks]
  generalize profile.ingest message replica = result at ingested ⊢
  cases ingested with
  | ignored screened => simp [screened]
  | failed screened extracted =>
      simp only [screened, extracted]
      split <;> exact ⟨rfl, rfl⟩
  | applied screened extracted accepted => simp [screened, extracted]
  | refused screened extracted declined =>
      simp [screened, extracted, Fault.breaksListener]

/-! ## Messages in turn -/

/-- The replica after messages in turn, each of which leaves it as it was if it cannot be used. -/
def receivedAll (profile : Profile) (messages : List Message) (replica : Replica) : Replica :=
  messages.foldl (fun replica message => profile.received message replica) replica

/-- The operations that messages carry, in turn. -/
def carried (profile : Profile) (messages : List Message) : List Operation :=
  messages.filterMap profile.decoded?

theorem carried_append
    (profile : Profile)
    (left right : List Message) :
    profile.carried (left ++ right) = profile.carried left ++ profile.carried right :=
  List.filterMap_append

/-- Messages that are taken in are the history of the operations that they carry. -/
theorem receivedAll_eq
    (profile : Profile)
    (messages : List Message)
    (replica : Replica) :
    profile.receivedAll messages replica = Replica.replay (profile.carried messages) replica := by
  induction messages generalizing replica with
  | nil => rfl
  | cons message rest ih =>
      show profile.receivedAll rest (profile.received message replica) = _
      rw [ih, received_eq, ← Replica.replay_append]
      cases here : profile.decoded? message <;> simp [carried, here]

/-- A listener takes in the messages before the first one that breaks it. -/
theorem absorbAll_eq
    (profile : Profile)
    (messages : List Message)
    (replica : Replica) :
    (profile.absorbAll messages replica).replica =
      profile.receivedAll (messages.takeWhile fun message => !profile.breaks message)
        replica := by
  induction messages generalizing replica with
  | nil => rfl
  | cons message rest ih =>
      rcases profile.absorb_eq message replica with ⟨left, verdict⟩
      rw [absorbAll]
      cases broken : profile.breaks message with
      | true =>
          rw [broken] at verdict
          simp only [verdict, ↓reduceIte, left, received_eq, decoded?_eq_none_of_breaks broken]
          simp [broken, receivedAll, Replica.replay]
      | false =>
          rw [broken] at verdict
          simp only [verdict, Bool.false_eq_true, ↓reduceIte, Hearing.preceded, ih, left]
          simp [broken, receivedAll]

/-- A listener that no message breaks takes in all of them. -/
theorem absorbAll_of_not_breaks
    {profile : Profile}
    {messages : List Message}
    (sound : ∀ message ∈ messages, profile.breaks message = false)
    (replica : Replica) :
    (profile.absorbAll messages replica).replica = profile.receivedAll messages replica := by
  rw [absorbAll_eq, List.takeWhile_eq_self_iff.mpr]
  intro message member
  simp [sound message member]

theorem absorbAll_listener
    {profile : Profile}
    {messages : List Message}
    (sound : ∀ message ∈ messages, profile.breaks message = false)
    (replica : Replica) :
    (profile.absorbAll messages replica).listener = .attentive := by
  induction messages generalizing replica with
  | nil => rfl
  | cons message rest ih =>
      have verdict := (profile.absorb_eq message replica).2
      rw [sound message List.mem_cons_self] at verdict
      simp only [absorbAll, verdict, Bool.false_eq_true, ↓reduceIte, Hearing.preceded]
      exact ih (fun later member => sound later (List.mem_cons_of_mem _ member)) _

/-! ## Agreement -/

/--
What two replicas are to agree on after the same messages: the members of sets,
the timestamps of registers, their values where all latest writes bring one,
and counters, if the messages are the same in number and their amounts stay
within the safe range.
-/
structure Agree
    (profile : Profile)
    (left right : List Message)
    (leftReplica rightReplica : Replica) : Prop where
  sets : ∀ key element, leftReplica.sets.has key element = rightReplica.sets.has key element
  timestamps : ∀ key,
    (leftReplica.registers.entry? key).map (·.timestamp.canonical) =
      (rightReplica.registers.entry? key).map (·.timestamp.canonical)
  values : ∀ key value,
    (∀ write ∈ Register.writes key (profile.carried left),
      (∀ other ∈ Register.writes key (profile.carried left), other.second ≤ write.second) →
        write.value = value) →
    leftReplica.registers.read? key = rightReplica.registers.read? key
  counters : left.Perm right →
    (∀ key, (Counter.amounts key (profile.carried left)).sum ≤ largestSafe) →
    leftReplica.counters = rightReplica.counters

theorem Agree.refl
    (profile : Profile)
    (left right : List Message)
    (replica : Replica) :
    profile.Agree left right replica replica :=
  ⟨fun _ _ => rfl, fun _ => rfl, fun _ _ _ => rfl, fun _ _ => rfl⟩

theorem mem_carried_iff
    {profile : Profile}
    {left right : List Message}
    (same : ∀ message, message ∈ left ↔ message ∈ right)
    (operation : Operation) :
    operation ∈ profile.carried left ↔ operation ∈ profile.carried right := by
  simp only [carried, List.mem_filterMap, same]

/-- A register that holds a timestamp holds a value, and one that holds none holds none. -/
theorem read?_eq_of_values
    {left right : Register}
    {key value : String}
    (timestamps :
      (left.entry? key).map (·.timestamp.canonical) =
        (right.entry? key).map (·.timestamp.canonical))
    (leftValue : ∀ stored ∈ left.read? key, stored = value)
    (rightValue : ∀ stored ∈ right.read? key, stored = value) :
    left.read? key = right.read? key := by
  unfold Register.read? at leftValue rightValue ⊢
  cases leftEntry : left.entry? key with
  | none =>
      rw [leftEntry] at timestamps
      rw [Option.map_none, eq_comm, Option.map_eq_none_iff] at timestamps
      rw [timestamps]
  | some entry =>
      rw [leftEntry, Option.map_some, eq_comm, Option.map_eq_some_iff] at timestamps
      rcases timestamps with ⟨other, rightEntry, _⟩
      rw [leftEntry] at leftValue
      rw [rightEntry] at rightValue
      rw [rightEntry, Option.map_some, Option.map_some]
      rw [leftValue entry.value rfl, rightValue other.value rfl]

/-- Replicas that take in the same messages agree, in whichever order and however often. -/
theorem agree_receivedAll
    (profile : Profile)
    {left right : List Message}
    (same : ∀ message, message ∈ left ↔ message ∈ right) :
    profile.Agree left right (profile.receivedAll left .empty)
      (profile.receivedAll right .empty) := by
  have leftHolds := Replica.reflects_replay (profile.carried left)
  have rightHolds := Replica.reflects_replay (profile.carried right)
  rw [receivedAll_eq, receivedAll_eq]
  have writes : ∀ key write,
      write ∈ Register.writes key (profile.carried left) ↔
        write ∈ Register.writes key (profile.carried right) := by
    intro key write
    simp only [Register.writes, List.mem_filterMap, mem_carried_iff same]
  have timestamps : ∀ key,
      ((Replica.replay (profile.carried left) .empty).registers.entry? key).map
          (·.timestamp.canonical) =
        ((Replica.replay (profile.carried right) .empty).registers.entry? key).map
          (·.timestamp.canonical) := by
    intro key
    rw [leftHolds.timestamps, rightHolds.timestamps]
    congr 1
    apply Register.max?_eq_of_mem_iff
    intro second
    simp only [List.mem_map, writes key]
  constructor
  · intro key element
    rw [Bool.eq_iff_iff, leftHolds.sets, rightHolds.sets, mem_carried_iff same]
  · exact timestamps
  · intro key value agree
    apply read?_eq_of_values (timestamps key)
    · exact leftHolds.values key value agree
    · apply rightHolds.values key value
      intro write member latest
      apply agree write ((writes key write).mpr member)
      intro other among
      exact latest other ((writes key other).mp among)
  · intro permuted room
    have operations : (profile.carried left).Perm (profile.carried right) :=
      permuted.filterMap profile.decoded?
    have amounts : ∀ key,
        (Counter.amounts key (profile.carried left)).Perm
          (Counter.amounts key (profile.carried right)) :=
      fun key => operations.filterMap (Counter.amount? key)
    have totals :
        (Replica.replay (profile.carried left) .empty).counters.totals =
          (Replica.replay (profile.carried right) .empty).counters.totals := by
      apply Table.ext_get?
      intro key
      have leftTotal := leftHolds.counters key (room key)
      have rightTotal := rightHolds.counters key ((amounts key).sum_nat ▸ room key)
      exact leftTotal.trans ((Counter.totalOf_perm (amounts key)).trans rightTotal.symm)
    exact congrArg Counter.mk totals

/-! ## Listeners -/

/-- An operation that may travel shows in the empty replica, in one of its families. -/
theorem shows_of_mayTravel
    {operation : Operation}
    (travels : operation.MayTravel) :
    (∃ key element,
      (Replica.replay [operation] .empty).sets.has key element = true) ∨
    (∃ key entry,
      (Replica.replay [operation] .empty).registers.entry? key = some entry) ∨
    (∃ key total,
      (Replica.replay [operation] .empty).counters.read? key = some total) ∧
      ∀ key, (Counter.amounts key [operation]).sum ≤ largestSafe := by
  have holds := Replica.reflects_replay [operation]
  cases operation with
  | setAdd key element =>
      left
      exact ⟨key, element, (holds.sets key element).mpr (List.mem_singleton_self _)⟩
  | registerSet key value timestamp =>
      right
      left
      have count := Binary64.isCount_iff.mpr travels
      have written : Register.writes key [.registerSet key value timestamp] =
          [⟨value, timestamp.toNat⟩] := by
        simp [Register.writes, Register.written?, count]
      have stamped := holds.timestamps key
      rw [written, List.map_singleton, List.max?_singleton, Option.map_some] at stamped
      rcases Option.map_eq_some_iff.mp stamped with ⟨entry, found, _⟩
      exact ⟨key, entry, found⟩
  | counterIncrement key amount =>
      right
      right
      have count := Binary64.isCount_iff.mpr travels
      have room : ∀ sought,
          (Counter.amounts sought [.counterIncrement key amount]).sum ≤ largestSafe := by
        intro sought
        by_cases here : key = sought
        · simpa [Counter.amounts, Counter.amount?, here, count] using
            Binary64.toNat_le_of_isCount count
        · simp [Counter.amounts, Counter.amount?, here]
      refine ⟨⟨key, Binary64.ofNat amount.toNat, ?_⟩, room⟩
      rw [holds.counters key (room key)]
      simp [Counter.amounts, Counter.amount?, count, Counter.totalOf]

theorem replay_singleton_ne_empty
    {operation : Operation}
    (travels : operation.MayTravel) :
    Replica.replay [operation] .empty ≠ .empty := by
  intro same
  rcases shows_of_mayTravel travels with
    ⟨key, element, member⟩ | ⟨key, entry, found⟩ | ⟨⟨key, total, held⟩, _⟩
  · rw [same] at member
    cases member
  · rw [same] at found
    cases found
  · rw [same] at held
    cases held

/-- A message that breaks a listener and one that can be used keep two listeners apart. -/
theorem not_agree_of_breaks
    {profile : Profile}
    {bad good : Message}
    {operation : Operation}
    (broken : profile.breaks bad = true)
    (usable : profile.decoded? good = some operation) :
    ¬ profile.Agree [bad, good] [good, bad]
      (profile.absorbAll [bad, good] .empty).replica
      (profile.absorbAll [good, bad] .empty).replica := by
  have sound := not_breaks_of_decoded? usable
  rw [absorbAll_eq, absorbAll_eq, receivedAll_eq, receivedAll_eq]
  simp only [broken, sound, List.takeWhile_cons, Bool.not_true, Bool.not_false,
    Bool.false_eq_true, ↓reduceIte, carried, List.filterMap_nil, List.filterMap_cons_some usable]
  intro agree
  rcases shows_of_mayTravel (mayTravel_of_decoded? usable) with
    ⟨key, element, member⟩ | ⟨key, entry, found⟩ | ⟨⟨key, total, held⟩, room⟩
  · have apart := agree.sets key element
    rw [member] at apart
    cases apart
  · have apart := agree.timestamps key
    rw [found] at apart
    cases apart
  · have apart := agree.counters (List.Perm.swap good bad [])
      (by simpa [carried, decoded?_eq_none_of_breaks broken, usable] using room)
    rw [← apart] at held
    cases held

/--
Replicas that take in the same messages and drop what they cannot use agree.
Listeners over a stock of messages agree exactly when no message of the stock
breaks a listener, or none can be used at all.
-/
theorem ingestion_converges (profile : Profile) :
    (∀ left right : List Message, (∀ message, message ∈ left ↔ message ∈ right) →
      profile.Agree left right (profile.receivedAll left .empty)
        (profile.receivedAll right .empty)) ∧
    ∀ stock : Message → Prop,
      (∀ left right : List Message,
        (∀ message ∈ left, stock message) →
        (∀ message, message ∈ left ↔ message ∈ right) →
          profile.Agree left right (profile.absorbAll left .empty).replica
            (profile.absorbAll right .empty).replica) ↔
      (∀ message, stock message → profile.breaks message = false) ∨
        ∀ message, stock message → profile.decoded? message = none := by
  constructor
  · intro left right same
    exact profile.agree_receivedAll same
  · intro stock
    constructor
    · intro agree
      by_contra neither
      push Not at neither
      rcases neither with ⟨⟨bad, inStock, broken⟩, good, alsoInStock, usable⟩
      rcases Option.ne_none_iff_exists'.mp usable with ⟨operation, usable⟩
      refine not_agree_of_breaks (Bool.eq_true_of_not_eq_false broken) usable
        (agree [bad, good] [good, bad] ?_ ?_)
      · intro message member
        rcases List.mem_cons.mp member with rfl | later
        · exact inStock
        · exact (List.mem_singleton.mp later) ▸ alsoInStock
      · intro message
        exact (List.Perm.swap good bad []).mem_iff
    · rintro (sound | unusable) left right within same
      · have rightWithin : ∀ message ∈ right, profile.breaks message = false :=
          fun message member => sound message (within message ((same message).mpr member))
        rw [absorbAll_of_not_breaks fun message member => sound message (within message member),
          absorbAll_of_not_breaks rightWithin]
        exact profile.agree_receivedAll same
      · have nothing : ∀ messages : List Message, (∀ message ∈ messages, stock message) →
            (profile.absorbAll messages .empty).replica = .empty := by
          intro messages stocked
          rw [absorbAll_eq, receivedAll_eq, carried, List.filterMap_eq_nil_iff.mpr]
          · rfl
          · intro message member
            exact unusable message (stocked message (List.takeWhile_prefix _ |>.mem member))
        rw [nothing left within,
          nothing right fun message member => within message ((same message).mpr member)]
        exact Agree.refl profile left right .empty

/-- A message whose key cannot be shown, before a usable message and after it. -/
theorem listeners_disagree :
    ¬ ∀ left right : List Message, (∀ message, message ∈ left ↔ message ∈ right) →
      Agree ⟨.standard, .plain, .unavailable⟩ left right
        (absorbAll ⟨.standard, .plain, .unavailable⟩ left .empty).replica
        (absorbAll ⟨.standard, .plain, .unavailable⟩ right .empty).replica := by
  intro agree
  have broken : breaks ⟨.standard, .plain, .unavailable⟩
      ⟨"f0", 1, "peer",
        "\x7b\"GSet\":\x7b\"key\":\x7b\"constructor\":\x7b\"name\":" ++
          "\x7b\"toString\":1\x7d\x7d\x7d\x7d\x7d",
        [["t", "nostr-crdt"]]⟩ = true := by
    decide +kernel
  have usable : decoded? ⟨.standard, .plain, .unavailable⟩
      ⟨"f1", 1, "peer",
        "\x7b\"GSet\":\x7b\"key\":\"k\",\"value\":\"e\",\"action\":\"Add\"\x7d\x7d",
        [["t", "nostr-crdt"]]⟩ = some (.setAdd "k" "e") := by
    decide +kernel
  exact not_agree_of_breaks broken usable
    (agree _ _ fun message => (List.Perm.swap _ _ []).mem_iff)

end ConvergentStore.Profile
