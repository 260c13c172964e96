import ConvergentStore.Replicated.Basic
import ConvergentStore.Replicated.Table

/-!
# Registers

A register holds one value for each key, with the timestamp of the write that
brought it. A write replaces what is stored only if its timestamp is strictly
greater, so of several writes with one timestamp the first to arrive stays.
-/

namespace ConvergentStore

namespace Register

/-- A stored value with the timestamp of its write. -/
structure Entry where
  value : String
  timestamp : Binary64
  deriving DecidableEq

/-- Whether a write replaces what is stored. -/
def Entry.supersedes (incoming : Entry) : Option Entry → Bool
  | none => true
  | some stored => stored.timestamp.lt incoming.timestamp

end Register

/-- Registers under their keys. -/
structure Register where
  entries : Table Register.Entry

namespace Register

/-- The registers without keys. -/
def empty : Register := ⟨.empty⟩

/-- What is stored under a key. -/
def entry? (register : Register) (key : String) : Option Entry :=
  register.entries.get? key

/-- The value under a key. -/
def read? (register : Register) (key : String) : Option String :=
  (register.entry? key).map (·.value)

/-- The registers after a write. -/
def write (register : Register) (key : String) (incoming : Entry) : Register :=
  if incoming.supersedes (register.entry? key) then
    ⟨register.entries.put key incoming⟩
  else register

/-- The registers after an operation. -/
def apply (operation : Operation) (register : Register) : Except Refusal Register :=
  match operation with
  | .registerSet key value timestamp =>
      if timestamp.isCount then .ok (register.write key ⟨value, timestamp⟩)
      else .error (.timestamp timestamp)
  | _ => .error (.foreign .register operation.family)

instance : Replicated Register String where
  family := .register
  empty := empty
  apply := apply
  read? := read?
  keys := fun register => register.entries.keys

end Register

end ConvergentStore
