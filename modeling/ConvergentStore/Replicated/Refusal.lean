import ConvergentStore.Operation.Basic

/-!
# Refusals

Why a replicated value does not take an operation.
-/

namespace ConvergentStore

/-- The reason why an operation is refused. -/
inductive Refusal where
  /-- The operation belongs to another family. -/
  | foreign (family : Family) (operation : Family)
  /-- The timestamp is not a non-negative safe integer. -/
  | timestamp (actual : Binary64)
  /-- The amount is not a non-negative safe integer. -/
  | amount (actual : Binary64)
  /-- The total under the key would leave the safe integers. -/
  | exceeded (key : String)
  deriving DecidableEq

/-- The text of a refusal. -/
def Refusal.message : Refusal → String
  | .foreign family operation =>
      family.title ++ " cannot apply a " ++ operation.operationName ++ " operation"
  | .timestamp actual =>
      "Register timestamp must be a non-negative integer, got " ++ actual.toText
  | .amount actual =>
      "Counter increment must be a non-negative integer, got " ++ actual.toText
  | .exceeded key => "Counter \"" ++ key ++ "\" would exceed the largest safe integer"

end ConvergentStore
