import ConvergentStore.Identity
import ConvergentStore.Retry.Policy

/-!
# Settings

What a session can be told from outside: the kind and the marker of the
messages that carry operations, and the policy for publishing them. Settings
are given one by one or read from an environment of named texts; reading
reports every text that is not valid, and a text that is not valid is never
replaced by a default.
-/

namespace ConvergentStore

/-- The settings of a session. -/
structure Settings where
  /-- The kind of the messages that carry operations. -/
  kind : Binary64
  /-- The hashtag of the messages that carry operations. -/
  marker : String
  /-- How often to attempt to publish a message, and how long to wait in between. -/
  retry : Policy
  deriving DecidableEq

namespace Settings

/-- The settings that hold where nothing else is said. -/
def standard : Settings := ⟨1, "nostr-crdt", .standard⟩

/-! ## Reading -/

/-- The texts of an environment that are settings. -/
inductive Variable where
  | kind
  | marker
  | maxAttempts
  | delay
  deriving DecidableEq

/-- The name of a text. -/
def Variable.name : Variable → String
  | .kind => "CRDT_EVENT_KIND"
  | .marker => "CRDT_MARKER"
  | .maxAttempts => "CRDT_PUBLISH_MAX_ATTEMPTS"
  | .delay => "CRDT_PUBLISH_RETRY_DELAY"

/-- Why a text is not a valid setting. -/
inductive Reason where
  | notInteger (content : String)
  | negativeKind
  | emptyMarker
  | noAttempt
  | notDelay (content : String)
  deriving DecidableEq

/-- The text of a reason. -/
def Reason.message : Reason → String
  | .notInteger content =>
      "Expected an integer value but received " ++ Text.Quoted.quote content
  | .negativeKind => "Expected a non-negative event kind"
  | .emptyMarker => "Expected a non-empty marker"
  | .noAttempt => "Expected at least one publish attempt"
  | .notDelay content => "Expected a duration but received " ++ Text.Quoted.quote content

/-- A text that is not valid, with the reason. -/
structure Problem where
  variableName : Variable
  reason : Reason
  deriving DecidableEq

/-- The text of a problem. -/
def Problem.message (problem : Problem) : String :=
  "(Invalid data at " ++ problem.variableName.name ++ ": \"" ++ problem.reason.message ++ "\")"

/-- The text of several problems, as reports give it. -/
def Problem.summary (problems : List Problem) : String :=
  Fault.abridge (" and ".intercalate (problems.map Problem.message))

/-- The label of problems. -/
def Problem.kind : String := "ConfigError"

/-- The integer that a text denotes. -/
def integerOf (content : String) : Except Reason Binary64 :=
  match Numeral.lenient? content.toList with
  | some number => if number.isInteger then .ok number else .error (.notInteger content)
  | none => .error (.notInteger content)

/-- The kind that a text denotes. -/
def kindOf (content : String) : Except Reason Binary64 := do
  let number ← integerOf content
  if Binary64.le 0 number then return number else throw .negativeKind

/-- The marker that a text is. -/
def markerOf (content : String) : Except Reason String :=
  if content.isEmpty then .error .emptyMarker else .ok content

/-- The number of attempts that a text denotes. -/
def maxAttemptsOf (content : String) : Except Reason Binary64 := do
  let number ← integerOf content
  if Binary64.le 1 number then return number else throw .noAttempt

/-- The delay that a text describes. -/
def delayOf (content : String) : Except Reason Binary64 :=
  match Delay.ofText content with
  | .ok delay => .ok delay
  | .error _ => .error (.notDelay content)

/-- A setting from an environment: the default if it is not there, a problem if it is not valid. -/
def load {α : Type} (environment : Environment) (variableName : Variable)
    (read : String → Except Reason α) (default : α) : Except Problem α :=
  match environment.get? variableName.name with
  | some content => (read content).mapError fun reason => ⟨variableName, reason⟩
  | none => .ok default

/-- The problem of a setting that could not be loaded. -/
def problemOf {α : Type} : Except Problem α → List Problem
  | .ok _ => []
  | .error problem => [problem]

/-- The settings of an environment, or all its problems. -/
def ofEnvironment (environment : Environment) : Except (List Problem) Settings :=
  let kind := load environment .kind kindOf standard.kind
  let marker := load environment .marker markerOf standard.marker
  let maxAttempts := load environment .maxAttempts maxAttemptsOf standard.retry.maxAttempts
  let delay := load environment .delay delayOf standard.retry.delay
  match kind, marker, maxAttempts, delay with
  | .ok kind, .ok marker, .ok maxAttempts, .ok delay =>
      .ok ⟨kind, marker, ⟨maxAttempts, delay⟩⟩
  | kind, marker, maxAttempts, delay =>
      .error (problemOf kind ++ problemOf marker ++ problemOf maxAttempts ++ problemOf delay)

end Settings

end ConvergentStore
