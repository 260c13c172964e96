import ConvergentStore.Proofs.Cipher
import ConvergentStore.Proofs.Replica.History
import ConvergentStore.Session.Step

/-!
# Delivery of published operations

Leaving and arriving are inverse to each other: what one replica has made of an
operation is screened, revealed and decoded by another one of the same channel
as that operation, zero being without a sign. Applied there, it does what the
operation itself would do. `delivery` puts this together for the two ciphers
that can be undone, and says what becomes of sealed text from a wrong sender.
-/

namespace ConvergentStore

open Binary64 (largestSafe)

/-! ## Replicas that differ in the sign of zero -/

namespace Register

/-- What is stored, without the sign of a zero in its timestamp. -/
def Entry.canonical (entry : Entry) : Entry :=
  { entry with timestamp := entry.timestamp.canonical }

end Register

namespace Replica

/-- Replicas are alike when they hold the same but for the sign of zeros in timestamps. -/
structure Alike (left right : Replica) : Prop where
  registers : ∀ key,
    (left.registers.entry? key).map Register.Entry.canonical =
      (right.registers.entry? key).map Register.Entry.canonical
  counters : left.counters = right.counters
  sets : left.sets = right.sets

theorem Alike.refl (replica : Replica) : Alike replica replica :=
  ⟨fun _ => rfl, rfl, rfl⟩

/-- A write and its canonical form leave registers that differ in the sign of zeros only. -/
theorem map_canonical_write
    (register : Register)
    (key value : String)
    {timestamp : Binary64}
    (count : timestamp.isCount = true)
    (sought : String) :
    (Register.entry? (register.write key ⟨value, timestamp.canonical⟩) sought).map
        Register.Entry.canonical =
      (Register.entry? (register.write key ⟨value, timestamp⟩) sought).map
        Register.Entry.canonical := by
  have canonicalCount := (Binary64.isCount_canonical timestamp).trans count
  have place : timestamp.canonical.place = timestamp.place := by
    rw [Binary64.place_of_isCount canonicalCount, Binary64.place_of_isCount count,
      Binary64.toNat_canonical]
  have verdict : ∀ stored : Option Register.Entry,
      Register.Entry.supersedes ⟨value, timestamp.canonical⟩ stored =
        Register.Entry.supersedes ⟨value, timestamp⟩ stored := by
    intro stored
    cases stored with
    | none => rfl
    | some old =>
        simp only [Register.Entry.supersedes, Binary64.lt, place,
          Binary64.isNaN_of_isCount canonicalCount, Binary64.isNaN_of_isCount count]
  have twice : timestamp.canonical.canonical = timestamp.canonical := by
    rw [Binary64.canonical_of_isCount canonicalCount, Binary64.toNat_canonical,
      Binary64.canonical_of_isCount count]
  simp only [Register.write, verdict]
  split
  · simp only [Register.entry?, Table.get?_put]
    split
    · simp only [Option.map_some, Register.Entry.canonical, twice]
    · rfl
  · rfl

/--
The canonical form of an operation does what the operation does. A reachable
replica takes both, unless the operation is an increment that would take a
total out of the safe range.
-/
theorem apply_canonical
    {replica : Replica}
    {operation : Operation}
    (reachable : replica.Reachable)
    (travels : operation.MayTravel) :
    (∃ next reached,
      replica.apply operation = .ok next ∧
      replica.apply operation.canonical = .ok reached ∧
      reached.Alike next) ∨
    ∃ key amount,
      operation = .counterIncrement key amount ∧
      largestSafe < replica.counters.total key + amount.toNat ∧
      replica.apply operation = .error (.exceeded key) ∧
      replica.apply operation.canonical = .error (.exceeded key) := by
  cases operation with
  | registerSet key value timestamp =>
      have count := Binary64.isCount_iff.mpr travels
      have canonicalCount := (Binary64.isCount_canonical timestamp).trans count
      left
      exact ⟨_, _, apply_registerSet replica key value count,
        apply_registerSet replica key value canonicalCount,
        map_canonical_write replica.registers key value count, rfl, rfl⟩
  | counterIncrement key amount =>
      have count := Binary64.isCount_iff.mpr travels
      have canonicalCount := (Binary64.isCount_canonical amount).trans count
      have plain := apply_counterIncrement reachable.whole count key
      have canonical := apply_counterIncrement reachable.whole canonicalCount key
      rw [Binary64.toNat_canonical] at canonical
      by_cases room : replica.counters.total key + amount.toNat ≤ largestSafe
      · rw [if_pos room] at plain canonical
        left
        exact ⟨_, _, plain, canonical, Alike.refl _⟩
      · rw [if_neg room] at plain canonical
        right
        exact ⟨key, amount, rfl, not_le.mp room, plain, canonical⟩
  | setAdd key element =>
      left
      exact ⟨_, _, apply_setAdd replica key element, apply_setAdd replica key element,
        Alike.refl _⟩

end Replica

/-! ## Leaving -/

/-- The document of an operation does not begin with a byte order mark. -/
theorem Operation.unmarked_toWire (operation : Operation) :
    operation.toWire.compact.toList.head? ≠ some '\uFEFF' := by
  have opening : operation.toWire.compact.toList.head? = some '\x7b' := by
    simp [toWire, Json.compact]
  rw [opening]
  decide

namespace Profile

/-- The message of an operation, once its document is encrypted. -/
theorem prepare_eq_ok
    {maker : Profile}
    {operation : Operation}
    {key content : String}
    (owner : maker.identity = .owner key)
    (travels : operation.MayTravel)
    (encrypted : maker.cipher.encrypt operation.toWire.compact key = .ok content) :
    maker.prepare operation = .ok (maker.outbound operation content) := by
  have encoded : operation.encode = .ok operation.toWire.compact :=
    Operation.encode_eq_ok_iff.mpr ⟨travels, rfl⟩
  simp [prepare, owner, Identity.publicKey, encoded, encrypted, Except.mapError, bind,
    Except.bind, pure, Except.pure]

/-! ## Arriving -/

/-- Profiles share a channel when their kinds are one number and their markers one text. -/
structure SharesChannel (maker taker : Profile) : Prop where
  kind : maker.settings.kind.equals taker.settings.kind = true
  marker : maker.settings.marker = taker.settings.marker

section

variable {maker taker : Profile} (channel : maker.SharesChannel taker)
  (operation : Operation) (content id sender : String)

include channel

theorem admits_outbound :
    taker.filter.admits ((maker.outbound operation content).toMessage id sender) = true := by
  have reverse := (Binary64.equals_comm _ _).trans channel.kind
  simp [Filter.admits, filter, outbound, Outbound.toMessage, Tags.hasHashtag,
    Binary64.sameValue, reverse, channel.marker]

theorem screen_outbound :
    taker.screen ((maker.outbound operation content).toMessage id sender) = none := by
  simp [screen, outbound, Outbound.toMessage, Tags.hasHashtag, channel.kind, channel.marker]

end

/-- A message whose payload is revealed as the document of an operation carries it. -/
theorem extract_of_reveal
    {taker : Profile}
    {message : Message}
    {operation : Operation}
    (travels : operation.MayTravel)
    (revealed : taker.reveal message = .ok operation.toWire.compact) :
    taker.extract message = .ok operation.canonical := by
  have encoded : operation.encode = .ok operation.toWire.compact :=
    Operation.encode_eq_ok_iff.mpr ⟨travels, rfl⟩
  simp [extract, revealed, Operation.decode_encode encoded, Except.mapError, bind, Except.bind]

theorem ingest_of_extract
    {taker : Profile}
    {message : Message}
    {operation : Operation}
    (screened : taker.screen message = none)
    (extracted : taker.extract message = .ok operation)
    (replica : Replica) :
    taker.ingest message replica =
      match replica.apply operation with
      | .ok next => .ok (.applied operation, next)
      | .error refusal => .error (.refused refusal) := by
  rw [ingest, screened]
  cases applied : replica.apply operation <;>
    simp [extracted, applied, Except.mapError, bind, Except.bind, pure, Except.pure]

theorem ingest_of_reveal_error
    {taker : Profile}
    {message : Message}
    {fault : Fault}
    (screened : taker.screen message = none)
    (unrevealed : taker.reveal message = .error fault)
    (replica : Replica) :
    taker.ingest message replica = .error fault := by
  simp [ingest, screened, extract, unrevealed, bind, Except.bind]

/-- The replica after a message; one that cannot be used leaves it as it was. -/
def received (profile : Profile) (message : Message) (replica : Replica) : Replica :=
  match profile.ingest message replica with
  | .ok (_, next) => next
  | .error _ => replica

/-- A session that is given a message has the replica that the message leaves. -/
theorem step_inbound_replica
    (session : Session)
    (index : Nat)
    (message : Message)
    (state : Session.State) :
    (session.step index (.inbound message) state).state.replica =
      session.profile.received message state.replica := by
  simp only [Session.step, received]
  split <;> simp only [*]

/--
A message has the effect of an operation on a replica. Either it is answered
with an equal operation and leaves what the operation leaves, or both are
refused because a total would leave the safe range, and nothing changes.
-/
def HasEffect
    (taker : Profile)
    (message : Message)
    (operation : Operation)
    (replica : Replica) : Prop :=
  (∃ next arrived reached,
    replica.apply operation = .ok next ∧
    taker.ingest message replica = .ok (.applied arrived, reached) ∧
    arrived.equals operation = true ∧
    reached.Alike next) ∨
  ∃ key amount,
    operation = .counterIncrement key amount ∧
    largestSafe < replica.counters.total key + amount.toNat ∧
    replica.apply operation = .error (.exceeded key) ∧
    taker.ingest message replica = .error (.refused (.exceeded key)) ∧
    taker.received message replica = replica

theorem hasEffect_of_reveal
    {taker : Profile}
    {message : Message}
    {operation : Operation}
    {replica : Replica}
    (screened : taker.screen message = none)
    (travels : operation.MayTravel)
    (revealed : taker.reveal message = .ok operation.toWire.compact)
    (reachable : replica.Reachable) :
    taker.HasEffect message operation replica := by
  have ingested := ingest_of_extract screened (extract_of_reveal travels revealed) replica
  rcases Replica.apply_canonical reachable travels with
    ⟨next, reached, plain, canonical, alike⟩ | ⟨key, amount, form, full, plain, canonical⟩
  · rw [canonical] at ingested
    exact Or.inl ⟨next, _, reached, plain, ingested, Operation.canonical_equals travels, alike⟩
  · rw [canonical] at ingested
    exact Or.inr ⟨key, amount, form, full, plain, ingested, by simp [received, ingested]⟩

/-- A message is refused as one that cannot be read, and changes nothing. -/
def Withholds (taker : Profile) (message : Message) (replica : Replica) : Prop :=
  (∃ fault, taker.ingest message replica = .error fault ∧ fault.kind = "SerializationError") ∧
    taker.received message replica = replica

section

variable {taker other : Profile} {message : Message} {replica : Replica}
  (same : other.ingest message replica = taker.ingest message replica)

include same

theorem HasEffect.congr
    {operation : Operation}
    (effect : taker.HasEffect message operation replica) :
    other.HasEffect message operation replica := by
  simpa only [HasEffect, received, same] using effect

theorem Withholds.congr (withheld : taker.Withholds message replica) :
    other.Withholds message replica := by
  simpa only [Withholds, received, same] using withheld

end

/-! ## Both ways -/

section

variable {maker taker : Profile} {operation : Operation}

theorem reveal_plain
    (plain : taker.cipher = .plain)
    (message : Message) :
    taker.reveal message = .ok message.content := by
  simp [reveal, plain, Cipher.plain]

/-- Sealed content is revealed to the key that it names. -/
theorem reveal_sealed
    (sealing : taker.cipher = .sealing)
    (operation : Operation)
    {message : Message}
    (content : message.content = Cipher.enclose operation.toWire.compact message.sender) :
    taker.reveal message = .ok operation.toWire.compact := by
  have recognised := Cipher.hasVectorSeparator_enclose operation.toWire.compact message.sender
  have disclosed := Cipher.disclose_enclose message.sender operation.unmarked_toWire
  simp [reveal, sealing, Cipher.sealing, content, recognised, disclosed, Except.mapError]

/-- What is published sealed, and sent under the name of its key, is decoded and applied. -/
theorem ingest_of_sealed
    {key : String}
    (owner : maker.identity = .owner key)
    (makerSeals : maker.cipher = .sealing)
    (takerSeals : taker.cipher = .sealing)
    (channel : maker.SharesChannel taker)
    (travels : operation.MayTravel) :
    ∃ outbound, maker.prepare operation = .ok outbound ∧
      ∀ id replica,
        taker.ingest (outbound.toMessage id key) replica =
          match replica.apply operation.canonical with
          | .ok next => .ok (.applied operation.canonical, next)
          | .error refusal => .error (.refused refusal) := by
  have encrypted : maker.cipher.encrypt operation.toWire.compact key =
      .ok (Cipher.enclose operation.toWire.compact key) := by
    rw [makerSeals]
    rfl
  refine ⟨_, prepare_eq_ok owner travels encrypted, ?_⟩
  intro id replica
  exact ingest_of_extract (screen_outbound channel operation _ id key)
    (extract_of_reveal travels (reveal_sealed takerSeals operation rfl)) replica

/-- Sealed content is withheld from a sender whose name is another. -/
theorem ingest_sealed_of_ne
    {message : Message}
    {plaintext key : String}
    (sealing : taker.cipher = .sealing)
    (screened : taker.screen message = none)
    (content : message.content = Cipher.enclose plaintext key)
    (apart : message.sender ≠ key)
    (replica : Replica) :
    taker.ingest message replica =
      .error (.undecryptable message.sender ⟨"Wrong key for ciphertext"⟩) := by
  have recognised := Cipher.hasVectorSeparator_enclose plaintext key
  have withheld := Cipher.disclose_enclose_of_ne plaintext apart
  have revealed : taker.reveal message =
      .error (.undecryptable message.sender ⟨"Wrong key for ciphertext"⟩) := by
    simp [reveal, sealing, Cipher.sealing, content, recognised, withheld, Except.mapError]
  exact ingest_of_reveal_error screened revealed replica

theorem outbound_of_prepare
    {prepared : Outbound}
    (made : maker.prepare operation = .ok prepared) :
    ∃ content, prepared = maker.outbound operation content := by
  rcases Operation.ok_of_bind_eq_ok made with ⟨_, _, rest⟩
  rcases Operation.ok_of_bind_eq_ok rest with ⟨_, _, rest⟩
  rcases Operation.ok_of_bind_eq_ok rest with ⟨content, _, rest⟩
  cases rest
  exact ⟨content, rfl⟩

end

/--
What a replica publishes of an operation that it has taken passes the filters
of its channel. In the clear, or sealed and under the name of the publisher's
key, it has the effect of the operation on every reachable replica of the
channel; sealed and under another name it is refused and changes nothing.
-/
theorem delivery
    {maker taker : Profile}
    {key : String}
    {operation : Operation}
    {before after : Replica}
    (owner : maker.identity = .owner key)
    (channel : maker.SharesChannel taker)
    (accepted : before.apply operation = .ok after) :
    (∀ outbound id sender, maker.prepare operation = .ok outbound →
      taker.filter.admits (outbound.toMessage id sender) = true) ∧
    (maker.cipher = .plain → taker.cipher = .plain →
      ∃ outbound, maker.prepare operation = .ok outbound ∧
        ∀ id sender replica, replica.Reachable →
          taker.HasEffect (outbound.toMessage id sender) operation replica) ∧
    (maker.cipher = .sealing → taker.cipher = .sealing →
      ∃ outbound, maker.prepare operation = .ok outbound ∧
        ∀ id sender replica, replica.Reachable →
          (sender = key →
            taker.HasEffect (outbound.toMessage id sender) operation replica) ∧
          (sender ≠ key → taker.Withholds (outbound.toMessage id sender) replica)) := by
  have travels := Replica.mayTravel_of_apply accepted
  refine ⟨?_, ?_, ?_⟩
  · intro outbound id sender made
    rcases outbound_of_prepare made with ⟨content, rfl⟩
    exact admits_outbound channel operation content id sender
  · intro makerPlain takerPlain
    have encrypted : maker.cipher.encrypt operation.toWire.compact key =
        .ok operation.toWire.compact := by
      rw [makerPlain]
      rfl
    refine ⟨_, prepare_eq_ok owner travels encrypted, ?_⟩
    intro id sender replica reachable
    exact hasEffect_of_reveal (screen_outbound channel operation _ id sender) travels
      (reveal_plain takerPlain _) reachable
  · intro makerSeals takerSeals
    have encrypted : maker.cipher.encrypt operation.toWire.compact key =
        .ok (Cipher.enclose operation.toWire.compact key) := by
      rw [makerSeals]
      rfl
    refine ⟨_, prepare_eq_ok owner travels encrypted, ?_⟩
    intro id sender replica reachable
    have screened := screen_outbound channel operation
      (Cipher.enclose operation.toWire.compact key) id sender
    constructor
    · rintro rfl
      exact hasEffect_of_reveal screened travels
        (reveal_sealed takerSeals operation rfl) reachable
    · intro apart
      have refused := ingest_sealed_of_ne takerSeals screened rfl apart replica
      exact ⟨⟨_, refused, rfl⟩, by simp [received, refused]⟩

end Profile

end ConvergentStore
