import ConvergentStore.Replicated.Refusal

/-!
# Replicated values

What the three families of replicated values have in common: an empty state,
operations that change one key or are refused, and reading. A transaction is
any piece of work on a state that may be refused; a refused transaction leaves
no trace, whatever part of its work was already done.
-/

namespace ConvergentStore

/-- A family of replicated values. -/
class Replicated (State : Type) (Value : outParam Type) where
  /-- The family that the values belong to. -/
  family : Family
  /-- The state that holds no key. -/
  empty : State
  /-- The state after an operation. -/
  apply : Operation → State → Except Refusal State
  /-- The value under a key. -/
  read? : State → String → Option Value
  /-- The keys that hold a value. -/
  keys : State → List String

namespace Replicated

/-- The state after a transaction: that of its work, or the old one if the work is refused. -/
def transact {State : Type} (work : State → Except Refusal State) (state : State) :
    Except Refusal Unit × State :=
  match work state with
  | .ok next => (.ok (), next)
  | .error refusal => (.error refusal, state)

variable {State Value : Type} [Replicated State Value]

/-- One operation as a transaction. -/
def commit (operation : Operation) : State → Except Refusal Unit × State :=
  transact (apply operation)

/-- The work of applying operations in turn, up to the first refusal. -/
def applyAll (operations : List Operation) (state : State) : Except Refusal State :=
  operations.foldlM (fun state operation => apply operation state) state

/-- Several operations as one transaction. -/
def commitAll (operations : List Operation) : State → Except Refusal Unit × State :=
  transact (applyAll operations)

/-- The state after operations that are committed one by one, refused ones dropped. -/
def replay (operations : List Operation) (state : State) : State :=
  operations.foldl (fun state operation => (commit operation state).2) state

end Replicated

end ConvergentStore
