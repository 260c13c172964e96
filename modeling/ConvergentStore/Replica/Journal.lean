import ConvergentStore.Fault

/-!
# Journals

What a replica notes about its work: events, and the entries they are written
down as. Entries name the message, the operation and the key they concern, and
their texts are abridged.
-/

namespace ConvergentStore

/-- How much attention an entry asks for. -/
inductive Level where
  | debug
  | warning
  deriving DecidableEq

/-- The name of a level. -/
def Level.name : Level → String
  | .debug => "DEBUG"
  | .warning => "WARN"

/-- A line of a journal, with what it concerns and the activities it was written in. -/
structure Entry where
  level : Level
  message : String
  annotations : List (String × String)
  spans : List String
  deriving DecidableEq

/-- What is worth noting. -/
inductive Event where
  /-- A subscription was opened. -/
  | listening
  /-- A message changed the replica. -/
  | applied (messageId : String) (operation : Operation)
  /-- A message could not be used. -/
  | dropped (messageId : String) (fault : Fault)
  /-- A listener, or the reader that feeds it, met a message that broke it. -/
  | collapsed
  /-- An attempt to publish an operation failed. -/
  | attemptFailed (operation : Operation) (cause : PublishFault)
  /-- An operation was published. -/
  | published (operation : Operation) (messageId : String)

/-- The entry of an event as it is drafted, not abridged yet. -/
def Event.draft : Event → Entry
  | .listening => ⟨.debug, "Listening for replicated operations", [], []⟩
  | .applied messageId operation =>
      ⟨.debug, "Applied inbound " ++ operation.name ++ " operation",
        [("messageId", messageId), ("key", operation.key)], []⟩
  | .dropped messageId fault =>
      ⟨.warning, "Dropped inbound message: " ++ fault.title,
        [("messageId", messageId), ("error", fault.kind)], []⟩
  | .collapsed => ⟨.debug, "Fiber terminated with an unhandled error", [], []⟩
  | .attemptFailed operation cause =>
      ⟨.warning, "Publish attempt failed: " ++ cause.message,
        [("operation", operation.name), ("key", operation.key)], ["mutation"]⟩
  | .published operation messageId =>
      ⟨.debug, "Published operation",
        [("operation", operation.name), ("key", operation.key), ("messageId", messageId)],
        ["mutation"]⟩

/-- The entry of an event. -/
def Event.entry (event : Event) : Entry :=
  { event.draft with message := Fault.abridge event.draft.message }

end ConvergentStore
