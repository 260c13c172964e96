import ConvergentStore.Proofs.Json.Shown
import ConvergentStore.Proofs.Operation.Reading
import ConvergentStore.Proofs.Replica.Ingestion

/-!
# Messages that break a listener

A message breaks the listener that it is delivered to when its payload is a JSON
document that is no operation, and the part at fault has no text
(`breaks_iff`). No other message does: not one that is passed over, cannot be
decrypted or is no JSON, nor one whose operation is refused.
-/

namespace ConvergentStore

theorem Fault.breaksListener_iff {fault : Fault} :
    fault.breaksListener = true ↔ fault = .malformed .indescribable := by
  constructor
  · intro breaks
    unfold breaksListener at breaks
    split at breaks
    · rfl
    · cases breaks
  · rintro rfl
    rfl

namespace Profile

variable {profile : Profile} {message : Message}

/-- What cannot be revealed could not be decrypted. -/
theorem exists_undecryptable
    {fault : Fault}
    (unrevealed : profile.reveal message = .error fault) :
    ∃ cause, fault = .undecryptable message.sender cause := by
  unfold reveal at unrevealed
  split at unrevealed
  · rcases Operation.error_of_mapError_eq_error unrevealed with ⟨cause, _, same⟩
    exact ⟨cause, same⟩
  · cases unrevealed

/-- A payload cannot be described when that is so of what it reveals. -/
theorem extract_eq_indescribable_iff :
    profile.extract message = .error (.malformed .indescribable) ↔
      ∃ plaintext, profile.reveal message = .ok plaintext ∧
        Operation.decode plaintext = .error .indescribable := by
  cases revealed : profile.reveal message with
  | error fault =>
      rcases exists_undecryptable revealed with ⟨cause, rfl⟩
      simp [extract, revealed, bind, Except.bind]
  | ok plaintext =>
      cases decoded : Operation.decode plaintext <;>
        simp [extract, revealed, decoded, Except.mapError, bind, Except.bind]

/-- A message breaks a listener when the part of its payload that is at fault has no text. -/
theorem breaks_iff :
    profile.breaks message = true ↔
      profile.screen message = none ∧
        ∃ plaintext value part,
          profile.reveal message = .ok plaintext ∧
            Json.Denotes plaintext value ∧
            Operation.AtFault value part ∧
            part.Textless := by
  have undecoded : ∀ plaintext, Operation.decode plaintext = .error .indescribable ↔
      ∃ value part, Json.Denotes plaintext value ∧ Operation.AtFault value part ∧
        part.Textless := by
    intro plaintext
    simp only [Operation.decode_indescribable_iff_atFault, Json.shown?_eq_none_iff]
  have broken : profile.breaks message = true ↔
      profile.screen message = none ∧
        profile.extract message = .error (.malformed .indescribable) := by
    cases screened : profile.screen message <;> cases extracted : profile.extract message <;>
      simp [breaks, screened, extracted, Fault.breaksListener_iff]
  rw [broken, extract_eq_indescribable_iff]
  simp only [undecoded, exists_and_left]

/-! ## Messages that break no listener -/

/-- A message that cannot be decrypted is dropped. -/
theorem not_breaks_of_undecryptable
    {fault : Fault}
    (unrevealed : profile.reveal message = .error fault) :
    profile.breaks message = false := by
  rw [← Bool.not_eq_true, breaks_iff]
  rintro ⟨_, plaintext, _, _, revealed, _⟩
  rw [unrevealed] at revealed
  cases revealed

/-- A message that holds no JSON document is dropped. -/
theorem not_breaks_of_not_denotes
    {plaintext : String}
    (revealed : profile.reveal message = .ok plaintext)
    (noJson : ∀ value, ¬ Json.Denotes plaintext value) :
    profile.breaks message = false := by
  rw [← Bool.not_eq_true, breaks_iff]
  rintro ⟨_, other, value, _, same, denotes, _⟩
  rw [revealed] at same
  cases same
  exact noJson value denotes

/-- A message whose operation is refused is dropped. -/
theorem not_breaks_of_refused
    {replica : Replica}
    {refusal : Refusal}
    (declined : profile.ingest message replica = .error (.refused refusal)) :
    profile.breaks message = false := by
  have ingested := profile.ingested message replica
  rw [declined] at ingested
  cases ingested with
  | failed screened extracted => simp [breaks, screened, extracted, Fault.breaksListener]
  | refused screened extracted => simp [breaks, screened, extracted]

end Profile

end ConvergentStore
