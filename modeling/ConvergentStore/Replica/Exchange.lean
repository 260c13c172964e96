import ConvergentStore.Channel.Message
import ConvergentStore.Operation.Wire
import ConvergentStore.Replica.Journal
import ConvergentStore.Replica.State
import ConvergentStore.Settings

/-!
# Exchange

How operations leave a replica and reach it. A change is first applied where
it is made; then it is encoded, encrypted for the key of the session and put
into a message with the marker of the session. An arriving message is screened
by kind and marker, decrypted if the cipher takes it for encrypted, decoded and
applied. A message that cannot be used leaves the replica as it was. A listener
notes such a message and goes on; a message whose fault cannot be described
breaks the listener, which then takes no more.
-/

namespace ConvergentStore

/-- What a replica is set up with. -/
structure Profile where
  settings : Settings
  cipher : Cipher
  identity : Identity

/-! ## Leaving -/

/-- A change that a user asks for. -/
inductive Change where
  | update (key value : String)
  | increment (key : String) (amount : Binary64)
  | add (key element : String)
  deriving DecidableEq

/-- The operation of a change that is asked for at a time of the clock. -/
def Change.toOperation (clock : Binary64) : Change → Operation
  | .update key value => .registerSet key value (Operation.timestampAt clock)
  | .increment key amount => .counterIncrement key amount
  | .add key element => .setAdd key element

namespace Profile

/-- The message that carries an operation with the given content. -/
def outbound (profile : Profile) (operation : Operation) (content : String) : Outbound :=
  ⟨profile.settings.kind, content,
    [operation.routingTag, ["t", profile.settings.marker]]⟩

/-- The message that carries an operation. -/
def prepare (profile : Profile) (operation : Operation) : Except Fault Outbound := do
  let recipient ← profile.identity.publicKey
  let plaintext ← operation.encode.mapError (.unencodable operation.family)
  let content ← (profile.cipher.encrypt plaintext recipient).mapError
    (.unencryptable operation.family)
  return profile.outbound operation content

/-! ## Arriving -/

/-- The filter of the messages that a replica publishes and uses. -/
def filter (profile : Profile) : Filter :=
  ⟨[profile.settings.kind], [profile.settings.marker]⟩

end Profile

/-- Why a message is passed over. -/
inductive Ignored where
  | kind (actual : Binary64)
  | marker (expected : String)
  deriving DecidableEq

/-- The text of the reason why a message is passed over. -/
def Ignored.message : Ignored → String
  | .kind actual => "Unexpected message kind " ++ actual.toText
  | .marker expected => "Missing \"" ++ expected ++ "\" marker"

/-- What became of a message. -/
inductive Arrival where
  | applied (operation : Operation)
  | ignored (reason : Ignored)
  deriving DecidableEq

/-- What is noted about what became of a message. -/
def Arrival.events (messageId : String) : Arrival → List Event
  | .applied operation => [.applied messageId operation]
  | .ignored _ => []

namespace Profile

/-- Why a message is passed over, if it is. -/
def screen (profile : Profile) (message : Message) : Option Ignored :=
  if !message.kind.equals profile.settings.kind then some (.kind message.kind)
  else if !message.tags.hasHashtag profile.settings.marker then
    some (.marker profile.settings.marker)
  else none

/-- The payload of a message in the clear. -/
def reveal (profile : Profile) (message : Message) : Except Fault String :=
  if profile.cipher.recognises message.content then
    (profile.cipher.decrypt message.content message.sender).mapError
      (.undecryptable message.sender)
  else .ok message.content

/-- The operation that a message carries. -/
def extract (profile : Profile) (message : Message) : Except Fault Operation := do
  let plaintext ← profile.reveal message
  (Operation.decode plaintext).mapError .malformed

/-- What becomes of a message, and the replica after it. -/
def ingest (profile : Profile) (message : Message) (replica : Replica) :
    Except Fault (Arrival × Replica) :=
  match profile.screen message with
  | some reason => .ok (.ignored reason, replica)
  | none => do
      let operation ← profile.extract message
      let replica ← (replica.apply operation).mapError .refused
      return (.applied operation, replica)

end Profile

/-! ## Listening -/

/-- Whether a listener takes the messages that are delivered to it. -/
inductive Listener where
  | attentive
  /-- A message broke it. -/
  | broken
  deriving DecidableEq

/-- What a listener made of what was delivered to it. -/
structure Hearing where
  listener : Listener
  replica : Replica
  events : List Event

/-- A hearing with events that were noted before it. -/
def Hearing.preceded (events : List Event) (hearing : Hearing) : Hearing :=
  { hearing with events := events ++ hearing.events }

namespace Profile

/--
What an attentive listener makes of a message. One that breaks it is reported
twice, by the listener and by the reader that feeds it.
-/
def absorb (profile : Profile) (message : Message) (replica : Replica) : Hearing :=
  match profile.ingest message replica with
  | .ok (arrival, next) => ⟨.attentive, next, arrival.events message.id⟩
  | .error fault =>
      if fault.breaksListener then ⟨.broken, replica, [.collapsed, .collapsed]⟩
      else ⟨.attentive, replica, [.dropped message.id fault]⟩

/-- What an attentive listener makes of messages that arrive one after another. -/
def absorbAll (profile : Profile) : List Message → Replica → Hearing
  | [], replica => ⟨.attentive, replica, []⟩
  | message :: rest, replica =>
      let first := profile.absorb message replica
      match first.listener with
      | .attentive => (profile.absorbAll rest first.replica).preceded first.events
      | .broken => first

/-- What a listener makes of messages; a broken one takes none. -/
def hear (profile : Profile) (listener : Listener) (messages : List Message)
    (replica : Replica) : Hearing :=
  match listener with
  | .attentive => profile.absorbAll messages replica
  | .broken => ⟨.broken, replica, []⟩

end Profile

end ConvergentStore
