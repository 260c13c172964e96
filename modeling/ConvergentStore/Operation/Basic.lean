import ConvergentStore.Number.Decimal

/-!
# Operations

The unit of replication. Replicas exchange operations and never state; an
operation describes one change of one key in one of three families of
replicated values.
-/

namespace ConvergentStore

/-- The families of replicated values. -/
inductive Family where
  /-- Registers, of which the last writer prevails. -/
  | register
  /-- Counters that only grow. -/
  | counter
  /-- Sets that only grow. -/
  | set
  deriving DecidableEq

namespace Family

/-- The three families, in their customary order. -/
def all : List Family := [.register, .counter, .set]

/-- The name of the operation that a family accepts. -/
def operationName : Family → String
  | .register => "RegisterSet"
  | .counter => "CounterIncrement"
  | .set => "SetAdd"

/-- The key that marks a family's operations in transit. -/
def wireName : Family → String
  | .register => "LWWRegister"
  | .counter => "GCounter"
  | .set => "GSet"

/-- The word that routes a family's operations. -/
def route : Family → String
  | .register => "lww"
  | .counter => "gcounter"
  | .set => "gset"

/-- The name of a family for readers. -/
def title : Family → String
  | .register => "LWW-Register"
  | .counter => "G-Counter"
  | .set => "G-Set"

end Family

/-- A change of one key. -/
inductive Operation where
  /-- Write a value, stamped with a time in whole seconds. -/
  | registerSet (key value : String) (timestamp : Binary64)
  /-- Add an amount to a counter. -/
  | counterIncrement (key : String) (amount : Binary64)
  /-- Add an element to a set. -/
  | setAdd (key element : String)
  deriving DecidableEq

namespace Operation

/-- The family that an operation changes. -/
def family : Operation → Family
  | .registerSet .. => .register
  | .counterIncrement .. => .counter
  | .setAdd .. => .set

/-- The key that an operation changes. -/
def key : Operation → String
  | .registerSet key .. => key
  | .counterIncrement key _ => key
  | .setAdd key _ => key

/-- The name of an operation's kind. -/
def name (operation : Operation) : String :=
  operation.family.operationName

/-- The tag that routes an operation. -/
def routingTag (operation : Operation) : List String :=
  ["c", "crdt", operation.family.route]

/-- A short text for an operation: what it writes, adds or inserts. -/
def summary : Operation → String
  | .registerSet _ _ timestamp => "register@" ++ timestamp.toText
  | .counterIncrement _ amount => "counter+" ++ amount.toText
  | .setAdd _ element => "set:" ++ element

/-- Whether two operations make the same change, their numbers compared as numbers. -/
def equals : Operation → Operation → Bool
  | .registerSet leftKey leftValue leftTime, .registerSet rightKey rightValue rightTime =>
      leftKey == rightKey && leftValue == rightValue && leftTime.equals rightTime
  | .counterIncrement leftKey leftAmount, .counterIncrement rightKey rightAmount =>
      leftKey == rightKey && leftAmount.equals rightAmount
  | .setAdd leftKey leftElement, .setAdd rightKey rightElement =>
      leftKey == rightKey && leftElement == rightElement
  | _, _ => false

/-- The whole second of a clock that shows milliseconds. -/
def timestampAt (clock : Binary64) : Binary64 :=
  (clock / 1000).floor

end Operation

end ConvergentStore
