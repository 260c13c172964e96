import ConvergentStore.Fault

/-!
# Identities

Who publishes in a session, and the environment of named texts in which the
key of a session can be given.
-/

namespace ConvergentStore

/-! ## Environments -/

/-- Named texts; of several texts with one name the last counts. -/
abbrev Environment := List (String × String)

/-- The text with a name. -/
def Environment.get? (environment : Environment) (name : String) : Option String :=
  (environment.reverse.find? fun entry => entry.1 == name).map (·.2)

/-! ## Identities -/

/-- Who publishes in a session: the owner of a public key, or nobody. -/
inductive Identity where
  | unavailable
  | owner (publicKey : String)
  deriving DecidableEq

namespace Identity

/-- The name of the text that holds the public key. -/
def variableName : String := "CRDT_PUBLIC_KEY"

/-- The public key. -/
def publicKey : Identity → Except Fault String
  | .unavailable => .error .keyless
  | .owner publicKey => .ok publicKey

/-- The identity that an environment names. -/
def ofEnvironment (environment : Environment) : Identity :=
  match environment.get? variableName with
  | some publicKey => .owner publicKey
  | none => .unavailable

end Identity

end ConvergentStore
