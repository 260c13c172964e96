import ConvergentStore.Replicated.Counter
import ConvergentStore.Replicated.GrowSet
import ConvergentStore.Replicated.Register

/-!
# Replicas

A replica holds one state of each family and hands every operation to the
family it belongs to.
-/

namespace ConvergentStore

/-- The states of the three families. -/
structure Replica where
  registers : Register
  counters : Counter
  sets : GrowSet

namespace Replica

/-- The replica without keys. -/
def empty : Replica := ⟨.empty, .empty, .empty⟩

/-- The replica after an operation. -/
def apply (operation : Operation) (replica : Replica) : Except Refusal Replica :=
  match operation.family with
  | .register =>
      (Register.apply operation replica.registers).map fun registers => { replica with registers }
  | .counter =>
      (Counter.apply operation replica.counters).map fun counters => { replica with counters }
  | .set =>
      (GrowSet.apply operation replica.sets).map fun sets => { replica with sets }

/-! ## Reading -/

/-- What a replica holds under a key of one family. -/
inductive Reading where
  | register (value : Option String)
  | counter (total : Option Binary64)
  | set (elements : Option (List String))
  deriving DecidableEq

/-- The value under a key of one family. -/
def read (replica : Replica) (family : Family) (key : String) : Reading :=
  match family with
  | .register => .register (replica.registers.read? key)
  | .counter => .counter (replica.counters.read? key)
  | .set => .set (replica.sets.read? key)

end Replica

end ConvergentStore
