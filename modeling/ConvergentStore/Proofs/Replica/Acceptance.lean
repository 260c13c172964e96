import ConvergentStore.Proofs.Replica.Ingestion

/-!
# Acceptance

The numbers of an operation are judged in three places: where it is encoded,
where it is decoded and where it is applied. All three accept the same numbers,
so an operation that a replica has taken has a document, and of the operations
that arrive a replica refuses only increments for which a total has no room.
-/

namespace ConvergentStore

open Binary64 (largestSafe)

/-- A fault is labelled invalid if and only if a replicated value refused the operation. -/
theorem Fault.kind_eq_invalid_iff {fault : Fault} :
    fault.kind = "InvalidOperation" ↔ ∃ refusal, fault = .refused refusal := by
  constructor
  · intro invalid
    cases fault with
    | refused refusal => exact ⟨refusal, rfl⟩
    | malformed cause => cases cause <;> simp [Fault.kind] at invalid
    | _ => simp [Fault.kind] at invalid
  · rintro ⟨refusal, rfl⟩
    rfl

/-! ## Encoding and applying -/

/-- An operation has a document exactly when it may travel. -/
theorem Operation.exists_encode_iff {operation : Operation} :
    (∃ document, operation.encode = .ok document) ↔ operation.MayTravel := by
  constructor
  · rintro ⟨document, written⟩
    exact (encode_eq_ok_iff.mp written).1
  · intro travels
    exact ⟨_, encode_eq_ok_iff.mpr ⟨travels, rfl⟩⟩

namespace Replica

/--
A reachable replica refuses an operation that may travel only if it is an
increment that would take a total out of the safe range.
-/
theorem apply_eq_error_iff
    {replica : Replica}
    {operation : Operation}
    (reachable : replica.Reachable)
    (travels : operation.MayTravel) :
    (∃ refusal, replica.apply operation = .error refusal) ↔
      ∃ key amount,
        operation = .counterIncrement key amount ∧
          largestSafe < replica.counters.total key + amount.toNat := by
  constructor
  · rintro ⟨refusal, refused⟩
    rcases apply_canonical reachable travels with
      ⟨next, _, accepted, _⟩ | ⟨key, amount, form, full, _⟩
    · rw [accepted] at refused
      cases refused
    · exact ⟨key, amount, form, full⟩
  · rintro ⟨key, amount, rfl, full⟩
    have applied := apply_counterIncrement reachable.whole (Binary64.isCount_iff.mpr travels) key
    rw [if_neg (not_le.mpr full)] at applied
    exact ⟨_, applied⟩

/-- The empty replica takes the operations that may travel, and no others. -/
theorem apply_empty_iff {operation : Operation} :
    (∃ next, empty.apply operation = .ok next) ↔ operation.MayTravel := by
  constructor
  · rintro ⟨next, accepted⟩
    exact mayTravel_of_apply accepted
  · intro travels
    cases applied : empty.apply operation with
    | ok next => exact ⟨next, rfl⟩
    | error refusal =>
        rcases (apply_eq_error_iff reachable_empty travels).mp ⟨refusal, applied⟩ with
          ⟨key, amount, rfl, full⟩
        have small := Binary64.toNat_le_of_isCount (Binary64.isCount_iff.mpr travels)
        have nothing : empty.counters.total key = 0 := Binary64.toNat_ofNat (by decide)
        rw [nothing, Nat.zero_add] at full
        exact absurd small (not_le.mpr full)

end Replica

namespace Profile

/-! ## Leaving -/

/-- Why a message could not be prepared for an operation. -/
inductive Unprepared (profile : Profile) (operation : Operation) : Fault → Prop
  /-- The session has no key. -/
  | keyless (nobody : profile.identity = .unavailable) : Unprepared profile operation .keyless
  /-- The operation has no document. -/
  | unencodable {mismatch : Mismatch} (unwritten : operation.encode = .error mismatch) :
      Unprepared profile operation (.unencodable operation.family mismatch)
  /-- The cipher does not encrypt the document for the key. -/
  | unencryptable {key document : String} {cause : CipherFault}
      (owner : profile.identity = .owner key)
      (written : operation.encode = .ok document)
      (unencrypted : profile.cipher.encrypt document key = .error cause) :
      Unprepared profile operation (.unencryptable operation.family cause)

theorem identity_eq_of_publicKey
    {profile : Profile}
    {key : String}
    (owned : profile.identity.publicKey = .ok key) :
    profile.identity = .owner key := by
  cases identity : profile.identity with
  | unavailable =>
      rw [identity] at owned
      cases owned
  | owner name =>
      rw [identity] at owned
      cases owned
      rfl

theorem unprepared_of_prepare_error
    {profile : Profile}
    {operation : Operation}
    {fault : Fault}
    (failed : profile.prepare operation = .error fault) :
    profile.Unprepared operation fault := by
  rcases Operation.error_of_bind_eq_error failed with nobody | ⟨recipient, owned, rest⟩
  · cases identity : profile.identity with
    | unavailable =>
        rw [identity] at nobody
        cases nobody
        exact .keyless identity
    | owner key =>
        rw [identity] at nobody
        cases nobody
  · have owner := identity_eq_of_publicKey owned
    rcases Operation.error_of_bind_eq_error rest with unwritten | ⟨document, written, rest⟩
    · rcases Operation.error_of_mapError_eq_error unwritten with ⟨mismatch, unfit, rfl⟩
      exact .unencodable unfit
    · rcases Operation.error_of_bind_eq_error rest with unencrypted | ⟨content, _, rest⟩
      · rcases Operation.error_of_mapError_eq_error unencrypted with ⟨cause, withheld, rfl⟩
        exact .unencryptable owner (Operation.ok_of_mapError_eq_ok written) withheld
      · cases rest

/-- Serialisation of an operation that may travel can only fail in the cipher. -/
theorem Unprepared.in_cipher
    {profile : Profile}
    {operation : Operation}
    {fault : Fault}
    (unprepared : profile.Unprepared operation fault)
    (travels : operation.MayTravel)
    (serialisation : fault.kind = "SerializationError") :
    ∃ document key cause,
      operation.encode = .ok document ∧
        profile.identity = .owner key ∧
        profile.cipher.encrypt document key = .error cause ∧
        fault = .unencryptable operation.family cause := by
  cases unprepared with
  | keyless nobody => simp [Fault.kind] at serialisation
  | unencodable unwritten =>
      rcases Operation.exists_encode_iff.mpr travels with ⟨document, written⟩
      rw [written] at unwritten
      cases unwritten
  | unencryptable owner written unencrypted =>
      exact ⟨_, _, _, written, owner, unencrypted, rfl⟩

/-! ## Arriving -/

/-- A message is not passed over when it has the kind and the marker. -/
theorem screen_eq_none_iff {profile : Profile} {message : Message} :
    profile.screen message = none ↔
      message.kind.equals profile.settings.kind = true ∧
        message.tags.hasHashtag profile.settings.marker = true := by
  cases known : message.kind.equals profile.settings.kind <;>
    cases marked : message.tags.hasHashtag profile.settings.marker <;>
    simp [screen, known, marked]

/-- A payload that cannot be had is not thereby an invalid operation. -/
theorem kind_ne_of_extract_error
    {profile : Profile}
    {message : Message}
    {fault : Fault}
    (failed : profile.extract message = .error fault) :
    fault.kind ≠ "InvalidOperation" := by
  rw [Ne, Fault.kind_eq_invalid_iff]
  rintro ⟨refusal, rfl⟩
  rcases Operation.error_of_bind_eq_error failed with unrevealed | ⟨plaintext, _, unread⟩
  · rw [reveal] at unrevealed
    split at unrevealed
    · rcases Operation.error_of_mapError_eq_error unrevealed with ⟨cause, _, same⟩
      cases same
    · cases unrevealed
  · rcases Operation.error_of_mapError_eq_error unread with ⟨cause, _, same⟩
    cases same

/-- An operation that a message carries is refused only as an increment that has no room. -/
theorem apply_eq_error_iff_of_extract
    {profile : Profile}
    {message : Message}
    {operation : Operation}
    (extracted : profile.extract message = .ok operation)
    {replica : Replica}
    (reachable : replica.Reachable) :
    (∃ refusal, replica.apply operation = .error refusal) ↔
      ∃ key amount, profile.extract message = .ok (.counterIncrement key amount) ∧
        largestSafe < replica.counters.total key + amount.toNat := by
  rw [Replica.apply_eq_error_iff reachable (mayTravel_of_extract extracted), extracted]
  simp only [Except.ok.injEq]

/--
A message fails as an invalid operation exactly when it is not passed over and
carries an increment that would take a total out of the safe range.
-/
theorem ingest_invalid_iff
    (profile : Profile)
    (message : Message)
    {replica : Replica}
    (reachable : replica.Reachable) :
    (∃ fault, profile.ingest message replica = .error fault ∧
        fault.kind = "InvalidOperation") ↔
      profile.screen message = none ∧
        ∃ key amount,
          profile.extract message = .ok (.counterIncrement key amount) ∧
            largestSafe < replica.counters.total key + amount.toNat := by
  have ingested := profile.ingested message replica
  generalize profile.ingest message replica = result at ingested
  cases ingested with
  | ignored screened => simp [screened]
  | failed screened extracted => simp [extracted, kind_ne_of_extract_error extracted]
  | applied screened extracted accepted =>
      have full := apply_eq_error_iff_of_extract extracted reachable
      simp [screened, ← full, accepted]
  | refused screened extracted declined =>
      have full := apply_eq_error_iff_of_extract extracted reachable
      simp [screened, ← full, declined, Fault.kind]

end Profile

end ConvergentStore
