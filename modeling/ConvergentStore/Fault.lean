import ConvergentStore.Cipher
import ConvergentStore.Operation.Mismatch
import ConvergentStore.Replicated.Refusal
import ConvergentStore.Text.Abridged

/-!
# Faults

Everything that can go wrong between a change and its arrival at another
replica, as causes. A fault has a kind, a title, perhaps a detail that explains
the title at length, and perhaps an underlying cause. Reports and journals give
texts without such explanations: whatever a text is made of, it ends after the
first phrase in it that announces one.
-/

namespace ConvergentStore

/-- Why one attempt to publish a message failed. -/
structure PublishFault where
  message : String
  deriving DecidableEq

/-- The label of failed attempts. -/
def PublishFault.kind : String := "PublishFailure"

/-- What went wrong with an operation or a message. -/
inductive Fault where
  /-- A replicated value refused the operation. -/
  | refused (refusal : Refusal)
  /-- The operation has no form in transit. -/
  | unencodable (family : Family) (mismatch : Mismatch)
  /-- The payload describes no operation. -/
  | malformed (fault : DecodeFault)
  /-- The operation could not be encrypted. -/
  | unencryptable (family : Family) (cause : CipherFault)
  /-- The message could not be decrypted. -/
  | undecryptable (sender : String) (cause : CipherFault)
  /-- Every attempt to publish failed; the cause is that of the last one. -/
  | unpublished (family : Family) (attempts : Binary64) (cause : PublishFault)
  /-- The session has no key. -/
  | keyless

namespace Fault

/-! ## Texts -/

/-- The title of a payload that describes no operation. -/
def malformedTitle : String := "Malformed operation payload"

/-- What a title says before the name of an operation that has no form in transit. -/
def unencodableOpening : String := "Cannot encode "

/-- What a title says after the name of an operation that has no form in transit. -/
def unencodableEnding : String := " operation"

/-- The label of a fault. -/
def kind : Fault → String
  | .refused _ => "InvalidOperation"
  | .malformed .indescribable => "Defect"
  | .unencodable .. | .malformed _ | .unencryptable .. | .undecryptable .. =>
      "SerializationError"
  | .unpublished .. => "TransportError"
  | .keyless => "KeysNotAvailable"

/-- The text of a fault, without its detail. -/
def title : Fault → String
  | .refused refusal => refusal.message
  | .unencodable family _ => unencodableOpening ++ family.operationName ++ unencodableEnding
  | .malformed .indescribable => "Cannot convert object to primitive value"
  | .malformed _ => malformedTitle
  | .unencryptable family _ => "Cannot encrypt " ++ family.operationName ++ " operation"
  | .undecryptable sender _ => "Cannot decrypt message from " ++ sender
  | .unpublished family attempts _ =>
      "Failed to publish " ++ family.operationName ++ " operation after " ++
        attempts.toText ++ " attempts"
  | .keyless => "No public key is configured for this session"

/-- What explains the title at length. -/
def detail? : Fault → Option String
  | .unencodable _ mismatch => mismatch.detail?
  | .malformed fault => fault.detail?
  | _ => none

/-- The whole text of a fault. -/
def message (fault : Fault) : String :=
  match fault.detail? with
  | some detail => fault.title ++ Text.colon ++ detail
  | none => fault.title

/-! ## Abridged texts -/

/-- The title that a text begins with, if a detail follows it. -/
def announced? (text : List Char) : Option (List Char) :=
  match Text.phrase? malformedTitle.toList text with
  | some phrase => some phrase
  | none => Text.phraseAround? unencodableOpening.toList unencodableEnding.toList text

/-- A text that ends with the first title in it that announces a detail. -/
def abridge (text : String) : String :=
  String.ofList (Text.abridge announced? text.toList)

/-- The text of a fault as reports and journals give it. -/
def headline (fault : Fault) : String :=
  abridge fault.title

/-! ## Particulars -/

/-- The kind and the text of the underlying cause. -/
def cause? : Fault → Option (String × String)
  | .unencryptable _ cause => some (CipherFault.kind, abridge cause.message)
  | .undecryptable _ cause => some (CipherFault.kind, abridge cause.message)
  | .unpublished _ _ cause => some (PublishFault.kind, abridge cause.message)
  | _ => none

/-- The number of attempts that were made in vain. -/
def attempts? : Fault → Option Binary64
  | .unpublished _ attempts _ => some attempts
  | _ => none

/-- Whether a fault breaks the listener that meets it. -/
def breaksListener : Fault → Bool
  | .malformed .indescribable => true
  | _ => false

end Fault

/-! ## Handlers -/

/-- What a handler is given: the kind and the text of a fault, perhaps with attempts. -/
structure Caught where
  kind : String
  message : String
  attempts? : Option Binary64

/-- A fault as a handler is given it. -/
def Fault.caught (fault : Fault) : Caught :=
  ⟨fault.kind, fault.headline, fault.attempts?⟩

/-- The line that names what a handler was given. -/
def Caught.line (caught : Caught) : String :=
  caught.kind ++ Text.colon ++ caught.message

/-- A handler is told of attempts exactly if it is given a fault of transport. -/
theorem Fault.isSome_attempts?_caught_iff {fault : Fault} :
    fault.caught.attempts?.isSome = true ↔ fault.caught.kind = "TransportError" := by
  cases fault with
  | malformed decoding => cases decoding <;> simp [caught, attempts?, kind]
  | _ => simp [caught, attempts?, kind]

end ConvergentStore
