import ConvergentStore.Proofs.Session.Endings
import ConvergentStore.Proofs.Session.History

/-!
# Acceptance in sessions

Encoding, decoding and applying accept the same operations (`validators_agree`).
So a session never applies what it cannot encode: if serialisation fails, it
fails in the cipher. And of the messages that arrive, only increments that a
total has no room for are answered as invalid.
-/

namespace ConvergentStore.Session

open Binary64 (largestSafe)

/-- A call that fails in serialisation is being made, and the cipher failed. -/
theorem serialisation_fails_in_cipher
    (session : Session)
    (index : Nat)
    (step : Step)
    (state : State)
    {ending : Nat × Outcome}
    (among : ending ∈ (session.step index step state).endings index)
    {fault : Fault}
    (failed : ending.2 = .failed fault)
    (serialisation : fault.kind = "SerializationError") :
    ∃ change document key cause,
      step = .change change ∧
        (change.toOperation state.clock).encode = .ok document ∧
        session.profile.identity = .owner key ∧
        session.profile.cipher.encrypt document key = .error cause ∧
        fault = .unencryptable (change.toOperation state.clock).family cause := by
  rcases session.step_ending index step state ending among with
    attempts | interrupted | ⟨change, own, made, rfl, why⟩
  · rw [failed] at attempts
    cases attempts with
    | unpublished => simp [Fault.kind] at serialisation
  · rw [interrupted] at failed
    cases failed
  · cases failed
    cases why with
    | refused declined => simp [Fault.kind] at serialisation
    | unprepared accepted unprepared =>
        rcases (Profile.unprepared_of_prepare_error unprepared).in_cipher
          (Replica.mayTravel_of_apply accepted) serialisation with
            ⟨document, key, cause, written, owner, unencrypted, same⟩
        exact ⟨change, document, key, cause, made, written, owner, unencrypted, same⟩

/--
Operations that have a document are those that the empty replica takes, and
whatever is decoded is one of them. Wherever a session stands, an operation
that its replica takes has a document, a call that fails in serialisation fails
in the cipher, and a message fails as an invalid operation exactly when it has
the kind and the marker and its payload is decoded to an increment that would
take a total out of the safe range.
-/
theorem validators_agree (session : Session) (clock : Binary64) :
    (∀ operation : Operation,
      (∃ document, operation.encode = .ok document) ↔
        ∃ next, Replica.empty.apply operation = .ok next) ∧
    (∀ document operation, Operation.decode document = .ok operation →
      (∃ rewritten, operation.encode = .ok rewritten) ∧
        ∃ next, Replica.empty.apply operation = .ok next) ∧
    ∀ cues,
      let state := session.after 0 cues (.initial clock)
      (∀ operation next, state.replica.apply operation = .ok next →
        ∃ document, operation.encode = .ok document) ∧
      (∀ index step, ∀ ending ∈ (session.step index step state).endings index, ∀ fault,
        ending.2 = .failed fault → fault.kind = "SerializationError" →
          ∃ change document key cause,
            step = .change change ∧
              (change.toOperation state.clock).encode = .ok document ∧
              session.profile.identity = .owner key ∧
              session.profile.cipher.encrypt document key = .error cause ∧
              fault = .unencryptable (change.toOperation state.clock).family cause) ∧
      ∀ message,
        (∃ fault, session.profile.ingest message state.replica = .error fault ∧
            fault.kind = "InvalidOperation") ↔
          message.kind.equals session.profile.settings.kind = true ∧
            message.tags.hasHashtag session.profile.settings.marker = true ∧
            ∃ plaintext key amount,
              session.profile.reveal message = .ok plaintext ∧
                Operation.decode plaintext = .ok (.counterIncrement key amount) ∧
                largestSafe < state.replica.counters.total key + amount.toNat := by
  refine ⟨?_, ?_, ?_⟩
  · intro operation
    rw [Operation.exists_encode_iff, Replica.apply_empty_iff]
  · intro document operation read
    have travels := Operation.mayTravel_of_decode read
    exact ⟨Operation.exists_encode_iff.mpr travels, Replica.apply_empty_iff.mpr travels⟩
  · intro cues state
    refine ⟨?_, ?_, ?_⟩
    · intro operation next accepted
      exact Operation.exists_encode_iff.mpr (Replica.mayTravel_of_apply accepted)
    · intro index step ending among fault failed serialisation
      exact session.serialisation_fails_in_cipher index step state among failed serialisation
    · intro message
      rw [session.profile.ingest_invalid_iff message (session.reachable_after cues clock),
        Profile.screen_eq_none_iff, and_assoc]
      simp only [Profile.extract_eq_ok_iff]
      constructor
      · rintro ⟨known, marked, key, amount, ⟨plaintext, revealed, read⟩, full⟩
        exact ⟨known, marked, plaintext, key, amount, revealed, read, full⟩
      · rintro ⟨known, marked, plaintext, key, amount, revealed, read, full⟩
        exact ⟨known, marked, key, amount, ⟨plaintext, revealed, read⟩, full⟩

end ConvergentStore.Session
