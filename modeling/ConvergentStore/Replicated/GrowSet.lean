import ConvergentStore.Replicated.Basic
import ConvergentStore.Replicated.Table

/-!
# Grow-only sets

A set lists the elements added under each key, in the order in which they
first arrived. Elements are never removed, and adding one again changes nothing.
-/

namespace ConvergentStore

/-- Sets under their keys. -/
structure GrowSet where
  members : Table (List String)

namespace GrowSet

/-- The sets without keys. -/
def empty : GrowSet := ⟨.empty⟩

/-- The elements under a key, in order of arrival. -/
def read? (set : GrowSet) (key : String) : Option (List String) :=
  set.members.get? key

/-- Whether an element is listed under a key. -/
def has (set : GrowSet) (key element : String) : Bool :=
  (set.read? key).any (·.contains element)

/-- The sets after an element is added. -/
def add (set : GrowSet) (key element : String) : GrowSet :=
  let listed := (set.read? key).getD []
  if listed.contains element then set
  else ⟨set.members.put key (listed ++ [element])⟩

/-- The sets after an operation. -/
def apply (operation : Operation) (set : GrowSet) : Except Refusal GrowSet :=
  match operation with
  | .setAdd key element => .ok (set.add key element)
  | _ => .error (.foreign .set operation.family)

instance : Replicated GrowSet (List String) where
  family := .set
  empty := empty
  apply := apply
  read? := read?
  keys := fun set => set.members.keys

end GrowSet

end ConvergentStore
