import ConvergentStore.Proofs.Replica.Ingestion
import Mathlib.Data.List.Basic

/-!
# Feeds

A feed is what a subscription delivers, message after message, and each message
finds the replica that those before it have left. A listener that no message
breaks hears a feed out: it takes in the operations of the messages that are
applied, in turn, and notes each of them and each message that fails
(`heardOut_absorbAll`). A message that breaks it ends the hearing there
(`absorbAll_of_breaks`). What a message carries does not depend on the replica,
so noise between the messages of a feed changes nothing that is taken in.
-/

namespace ConvergentStore

namespace Replica

/-! ## Operations in turn -/

/-- The replica after operations in turn, if it takes all of them. -/
def applyAll (operations : List Operation) (replica : Replica) : Except Refusal Replica :=
  operations.foldlM (fun replica operation => replica.apply operation) replica

theorem applyAll_cons
    {operation : Operation}
    {replica next : Replica}
    (accepted : replica.apply operation = .ok next)
    (rest : List Operation) :
    applyAll (operation :: rest) replica = applyAll rest next := by
  simp [applyAll, accepted, bind, Except.bind]

/--
Replicas between which only what is held under the key of an operation may
differ, and this only in the family of the operation.
-/
structure ChangesOnly (operation : Operation) (before after : Replica) : Prop where
  registers : ∀ key, (operation.family, operation.key) ≠ (.register, key) →
    after.registers.entry? key = before.registers.entry? key
  counters : ∀ key, (operation.family, operation.key) ≠ (.counter, key) →
    after.counters.read? key = before.counters.read? key
  sets : ∀ key, (operation.family, operation.key) ≠ (.set, key) →
    after.sets.read? key = before.sets.read? key

theorem changesOnly_of_apply
    {operation : Operation}
    {replica next : Replica}
    (accepted : replica.apply operation = .ok next) :
    ChangesOnly operation replica next := by
  cases operation with
  | registerSet target value timestamp =>
      have count := Binary64.isCount_iff.mpr (mayTravel_of_apply accepted)
      rw [apply_registerSet replica target value count] at accepted
      cases accepted
      refine ⟨?_, fun _ _ => rfl, fun _ _ => rfl⟩
      intro key elsewhere
      have apart : target ≠ key := fun same => elsewhere (by rw [← same]; rfl)
      exact Register.entry?_write_of_ne replica.registers _ apart
  | counterIncrement target amount =>
      simp only [apply, Operation.family, Counter.apply] at accepted
      split at accepted
      · split at accepted
        · cases accepted
          refine ⟨fun _ _ => rfl, ?_, fun _ _ => rfl⟩
          intro key elsewhere
          have apart : target ≠ key := fun same => elsewhere (by rw [← same]; rfl)
          simp [Counter.read?, Table.get?_put, apart]
        · cases accepted
      · cases accepted
  | setAdd target element =>
      rw [apply_setAdd] at accepted
      cases accepted
      refine ⟨fun _ _ => rfl, fun _ _ => rfl, ?_⟩
      intro key elsewhere
      have apart : target ≠ key := fun same => elsewhere (by rw [← same]; rfl)
      simp only [GrowSet.add]
      split
      · rfl
      · simp [GrowSet.read?, Table.get?_put, apart]

end Replica

namespace Profile

/-! ## What becomes of messages -/

/-- What becomes of messages that are taken in one after another. -/
def arrivals (profile : Profile) :
    List Message → Replica → List (Message × Except Fault Arrival)
  | [], _ => []
  | message :: rest, replica =>
      (message, (profile.ingest message replica).map (·.1)) ::
        profile.arrivals rest (profile.received message replica)

/-- The operation of a message that was applied. -/
def brought? : Message × Except Fault Arrival → Option Operation
  | (_, .ok (.applied operation)) => some operation
  | (_, .ok (.ignored _)) => none
  | (_, .error _) => none

/-- What a listener notes about a message. -/
def noted : Message × Except Fault Arrival → List Event
  | (message, .ok arrival) => arrival.events message.id
  | (message, .error fault) => [.dropped message.id fault]

/-- The warning about a message that failed. -/
def warning? : Message × Except Fault Arrival → Option Event
  | (_, .ok _) => none
  | (message, .error fault) => some (.dropped message.id fault)

/-- Of what a listener notes about a message, only that it failed is a warning. -/
theorem filter_warning_noted (arrival : Message × Except Fault Arrival) :
    (noted arrival).filter (·.entry.level == .warning) = (warning? arrival).toList := by
  rcases arrival with ⟨message, (fault | ⟨operation⟩ | ⟨reason⟩)⟩ <;> rfl

/-- A replica takes in the operations of the messages that are applied, in turn. -/
theorem applyAll_brought
    (profile : Profile)
    (messages : List Message)
    (replica : Replica) :
    Replica.applyAll ((profile.arrivals messages replica).filterMap brought?) replica =
      .ok (profile.receivedAll messages replica) := by
  induction messages generalizing replica with
  | nil => rfl
  | cons message rest ih =>
      have later := ih (profile.received message replica)
      have ingested := profile.ingested message replica
      rw [arrivals]
      show _ = Except.ok (profile.receivedAll rest (profile.received message replica))
      rw [received] at later ⊢
      generalize profile.ingest message replica = result at ingested later ⊢
      cases ingested with
      | ignored screened => exact later
      | failed screened extracted => exact later
      | applied screened extracted accepted =>
          exact (Replica.applyAll_cons accepted _).trans later
      | refused screened extracted declined => exact later

/-! ## Listeners -/

/-- What an attentive listener makes of two parts of a feed. -/
theorem absorbAll_append
    (profile : Profile)
    (left right : List Message)
    (replica : Replica) :
    profile.absorbAll (left ++ right) replica =
      match (profile.absorbAll left replica).listener with
      | .attentive =>
          (profile.absorbAll right (profile.absorbAll left replica).replica).preceded
            (profile.absorbAll left replica).events
      | .broken => profile.absorbAll left replica := by
  induction left generalizing replica with
  | nil => rfl
  | cons message rest ih =>
      simp only [List.cons_append, absorbAll]
      cases heard : (profile.absorb message replica).listener with
      | broken => simp only [heard]
      | attentive =>
          simp only [ih, Hearing.preceded]
          split <;> simp [*]

/-- A listener has heard a feed out when it has taken in and noted what became of each message. -/
structure HeardOut
    (profile : Profile)
    (feed : List Message)
    (replica : Replica)
    (hearing : Hearing) : Prop where
  /-- It would take more. -/
  attentive : hearing.listener = .attentive
  /-- It has taken in the operations of the messages that were applied, in turn. -/
  taken : Replica.applyAll ((profile.arrivals feed replica).filterMap brought?) replica =
    .ok hearing.replica
  /-- It has noted what became of each message. -/
  events : hearing.events = (profile.arrivals feed replica).flatMap noted
  /-- It has warned of each message that failed, and of nothing else. -/
  warnings : hearing.events.filter (·.entry.level == .warning) =
    (profile.arrivals feed replica).filterMap warning?

/-- A listener that a message does not break takes it in and notes what became of it. -/
theorem absorb_of_not_breaks
    {profile : Profile}
    {message : Message}
    (sound : profile.breaks message = false)
    (replica : Replica) :
    profile.absorb message replica =
      ⟨.attentive, profile.received message replica,
        noted (message, (profile.ingest message replica).map (·.1))⟩ := by
  have attentive := (profile.absorb_eq message replica).2
  rw [sound] at attentive
  cases ingested : profile.ingest message replica with
  | ok arrived => simp [absorb, received, noted, ingested, Except.map]
  | error fault =>
      simp only [absorb, ingested, Bool.false_eq_true, ↓reduceIte] at attentive ⊢
      split at attentive
      · cases attentive
      · next goesOn => simp [goesOn, received, noted, ingested, Except.map]

theorem events_absorbAll
    {profile : Profile}
    {feed : List Message}
    (sound : ∀ message ∈ feed, profile.breaks message = false)
    (replica : Replica) :
    (profile.absorbAll feed replica).events =
      (profile.arrivals feed replica).flatMap noted := by
  induction feed generalizing replica with
  | nil => rfl
  | cons message rest ih =>
      have later := ih (fun other member => sound other (List.mem_cons_of_mem _ member))
        (profile.received message replica)
      rw [absorbAll, absorb_of_not_breaks (sound message List.mem_cons_self)]
      simp only [Hearing.preceded, later, arrivals, List.flatMap_cons]

theorem heardOut_absorbAll
    {profile : Profile}
    {feed : List Message}
    (sound : ∀ message ∈ feed, profile.breaks message = false)
    (replica : Replica) :
    profile.HeardOut feed replica (profile.absorbAll feed replica) := by
  have events := events_absorbAll sound replica
  refine ⟨absorbAll_listener sound replica, ?_, events, ?_⟩
  · rw [applyAll_brought, absorbAll_of_not_breaks sound]
  · rw [events, List.filter_flatMap]
    simp only [filter_warning_noted, ← List.filterMap_eq_flatMap_toList]

theorem absorb_of_breaks
    {profile : Profile}
    {message : Message}
    (broken : profile.breaks message = true)
    (replica : Replica) :
    profile.absorb message replica = ⟨.broken, replica, [.collapsed, .collapsed]⟩ := by
  have ingested := profile.ingested message replica
  rw [breaks] at broken
  rw [absorb]
  generalize profile.ingest message replica = result at ingested ⊢
  cases ingested with
  | ignored screened => simp [screened] at broken
  | failed screened extracted =>
      simp only [screened, extracted] at broken
      exact if_pos broken
  | applied screened extracted accepted => simp [screened, extracted] at broken
  | refused screened extracted declined => simp [screened, extracted] at broken

theorem absorbAll_listener_iff
    (profile : Profile)
    (feed : List Message)
    (replica : Replica) :
    (profile.absorbAll feed replica).listener = .attentive ↔
      ∀ message ∈ feed, profile.breaks message = false := by
  constructor
  · intro attentive
    induction feed generalizing replica with
    | nil => exact nofun
    | cons message rest ih =>
        rw [absorbAll] at attentive
        cases broken : profile.breaks message with
        | true => simp [absorb_of_breaks broken] at attentive
        | false =>
            rw [absorb_of_not_breaks broken] at attentive
            exact List.forall_mem_cons.mpr ⟨broken, ih _ attentive⟩
  · intro sound
    exact absorbAll_listener sound replica

/-- A listener hears a feed out exactly when no message of it breaks the listener. -/
theorem heardOut_iff
    (profile : Profile)
    (feed : List Message)
    (replica : Replica) :
    profile.HeardOut feed replica (profile.absorbAll feed replica) ↔
      ∀ message ∈ feed, profile.breaks message = false :=
  ⟨fun heard => (profile.absorbAll_listener_iff feed replica).mp heard.attentive,
    fun sound => heardOut_absorbAll sound replica⟩

/-- A message that breaks a listener leaves what the messages before it have brought. -/
theorem absorbAll_of_breaks
    {profile : Profile}
    {heard : List Message}
    {bad : Message}
    (sound : ∀ message ∈ heard, profile.breaks message = false)
    (broken : profile.breaks bad = true)
    (rest : List Message)
    (replica : Replica) :
    profile.absorbAll (heard ++ bad :: rest) replica =
      ⟨.broken, (profile.absorbAll heard replica).replica,
        (profile.absorbAll heard replica).events ++ [.collapsed, .collapsed]⟩ := by
  rw [absorbAll_append, absorbAll_listener sound]
  simp only [absorbAll, absorb_of_breaks broken, Hearing.preceded]

/-! ## Noise -/

/-- A message is noise if it is passed over, or its payload cannot be decrypted or decoded. -/
inductive Noise (profile : Profile) (message : Message) : Prop
  | ignored {reason : Ignored} (screened : profile.screen message = some reason) :
      Noise profile message
  | undecryptable {fault : Fault} (unrevealed : profile.reveal message = .error fault) :
      Noise profile message
  | undecodable {plaintext : String} {fault : DecodeFault}
      (revealed : profile.reveal message = .ok plaintext)
      (unread : Operation.decode plaintext = .error fault) :
      Noise profile message

/-- Noise carries no operation, and only noise does not. -/
theorem noise_iff {profile : Profile} {message : Message} :
    profile.Noise message ↔ profile.decoded? message = none := by
  rw [decoded?]
  constructor
  · intro noise
    cases noise with
    | ignored screened => rw [screened]
    | undecryptable unrevealed =>
        cases profile.screen message <;>
          simp [extract, unrevealed, bind, Except.bind, Except.toOption]
    | undecodable revealed unread =>
        cases profile.screen message <;>
          simp [extract, revealed, unread, bind, Except.bind, Except.mapError, Except.toOption]
  · intro nothing
    cases screened : profile.screen message with
    | some reason => exact .ignored screened
    | none =>
        cases revealed : profile.reveal message with
        | error fault => exact .undecryptable revealed
        | ok plaintext =>
            cases read : Operation.decode plaintext with
            | error fault => exact .undecodable revealed read
            | ok operation =>
                simp [screened, extract, revealed, read, bind, Except.bind, Except.mapError,
                  Except.toOption] at nothing

/-- A feed, and the feed with noise put between its messages. -/
inductive Noisy (profile : Profile) : List Message → List Message → Prop
  | nil : Noisy profile [] []
  | message {feed noisy : List Message} (message : Message) (rest : Noisy profile feed noisy) :
      Noisy profile (message :: feed) (message :: noisy)
  | noise {feed noisy : List Message} {message : Message} (noise : profile.Noise message)
      (rest : Noisy profile feed noisy) :
      Noisy profile feed (message :: noisy)

section

variable {profile : Profile} {feed noisy : List Message} (inserted : profile.Noisy feed noisy)

include inserted

theorem Noisy.sublist : feed.Sublist noisy := by
  induction inserted with
  | nil => exact .slnil
  | message message rest ih => exact ih.cons_cons message
  | noise noise rest ih => exact ih.cons _

/-- With noise or without, a feed carries the same operations in turn. -/
theorem Noisy.carried_eq : profile.carried noisy = profile.carried feed := by
  induction inserted with
  | nil => rfl
  | message message rest ih =>
      show List.filterMap _ _ = List.filterMap _ _
      rw [List.filterMap_cons, List.filterMap_cons, ← carried, ← carried, ih]
  | noise noise rest ih =>
      show List.filterMap _ _ = _
      rw [List.filterMap_cons_none (noise_iff.mp noise), ← carried, ih]

/-- Noise that does not break a listener changes nothing that it takes in. -/
theorem Noisy.absorbAll_eq
    (sound : ∀ message ∈ noisy, profile.breaks message = false)
    (replica : Replica) :
    (profile.absorbAll noisy replica).replica = (profile.absorbAll feed replica).replica := by
  rw [absorbAll_of_not_breaks sound,
    absorbAll_of_not_breaks fun message member => sound message (inserted.sublist.mem member),
    receivedAll_eq, receivedAll_eq, inserted.carried_eq]

end

/-- A listener that hears only noise has what it had. -/
theorem absorbAll_of_noise
    {profile : Profile}
    {feed : List Message}
    (noise : ∀ message ∈ feed, profile.Noise message)
    (replica : Replica) :
    (profile.absorbAll feed replica).replica = replica := by
  rw [absorbAll_eq, receivedAll_eq, carried, List.filterMap_eq_nil_iff.mpr]
  · rfl
  · intro message member
    exact noise_iff.mp (noise message ((List.takeWhile_prefix _).mem member))

/-- Noise that breaks a listener keeps from it what comes next. -/
theorem absorbAll_ne_of_breaks
    {profile : Profile}
    {bad good : Message}
    {operation : Operation}
    (broken : profile.breaks bad = true)
    (usable : profile.decoded? good = some operation) :
    (profile.absorbAll [bad, good] .empty).replica ≠
      (profile.absorbAll [good] .empty).replica := by
  have sound := not_breaks_of_decoded? usable
  have silenced : (profile.absorbAll [bad, good] .empty).replica = .empty := by
    simp only [absorbAll, absorb_of_breaks broken]
  have taken : (profile.absorbAll [good] .empty).replica =
      Replica.replay [operation] .empty := by
    rw [absorbAll_of_not_breaks (List.forall_mem_singleton.mpr sound), receivedAll_eq, carried,
      List.filterMap_cons_some usable, List.filterMap_nil]
  rw [silenced, taken]
  exact (replay_singleton_ne_empty (mayTravel_of_decoded? usable)).symm

/--
Over a stock of messages noise changes nothing that a listener takes in exactly
when no message of the stock breaks a listener, or all of them are noise.
-/
theorem noise_changes_nothing_iff
    (profile : Profile)
    (stock : Message → Prop) :
    (∀ feed noisy, (∀ message ∈ noisy, stock message) → profile.Noisy feed noisy →
      ∀ replica,
        (profile.absorbAll noisy replica).replica = (profile.absorbAll feed replica).replica) ↔
      (∀ message, stock message → profile.breaks message = false) ∨
        ∀ message, stock message → profile.Noise message := by
  constructor
  · intro unchanged
    by_contra neither
    push Not at neither
    rcases neither with ⟨⟨bad, inStock, broken⟩, good, alsoInStock, usable⟩
    replace broken := Bool.eq_true_of_not_eq_false broken
    rw [noise_iff] at usable
    rcases Option.ne_none_iff_exists'.mp usable with ⟨operation, carries⟩
    have inserted : profile.Noisy [good] [bad, good] :=
      .noise (noise_iff.mpr (decoded?_eq_none_of_breaks broken)) (.message good .nil)
    have stocked : ∀ message ∈ [bad, good], stock message := by
      simp [inStock, alsoInStock]
    exact absorbAll_ne_of_breaks broken carries
      (unchanged [good] [bad, good] stocked inserted .empty)
  · rintro (sound | noise) feed noisy within inserted replica
    · exact inserted.absorbAll_eq (fun message member => sound message (within message member))
        replica
    · have fewer := fun message member =>
        noise message (within message (inserted.sublist.mem member))
      rw [absorbAll_of_noise (fun message member => noise message (within message member)),
        absorbAll_of_noise fewer]

end Profile

end ConvergentStore
