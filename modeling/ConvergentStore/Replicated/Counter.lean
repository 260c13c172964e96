import ConvergentStore.Replicated.Basic
import ConvergentStore.Replicated.Table

/-!
# Counters

A counter adds up the amounts that arrive under each key. Amounts are
non-negative safe integers, and an amount whose rounded sum with the total
leaves the safe integers is refused.
-/

namespace ConvergentStore

/-- Counters under their keys. -/
structure Counter where
  totals : Table Binary64

namespace Counter

/-- The counters without keys. -/
def empty : Counter := ⟨.empty⟩

/-- The total under a key. -/
def read? (counter : Counter) (key : String) : Option Binary64 :=
  counter.totals.get? key

/-- The total under a key after an amount is added; a key not yet counted stands at zero. -/
def raised (counter : Counter) (key : String) (amount : Binary64) : Binary64 :=
  (counter.read? key).getD 0 + amount

/-- The counters after an operation. -/
def apply (operation : Operation) (counter : Counter) : Except Refusal Counter :=
  match operation with
  | .counterIncrement key amount =>
      if amount.isCount then
        let total := counter.raised key amount
        if total.isSafeInteger then .ok ⟨counter.totals.put key total⟩
        else .error (.exceeded key)
      else .error (.amount amount)
  | _ => .error (.foreign .counter operation.family)

instance : Replicated Counter Binary64 where
  family := .counter
  empty := empty
  apply := apply
  read? := read?
  keys := fun counter => counter.totals.keys

end Counter

end ConvergentStore
