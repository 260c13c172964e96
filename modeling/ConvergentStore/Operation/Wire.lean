import ConvergentStore.Json.Reader
import ConvergentStore.Operation.Mismatch

/-!
# Operations in transit

An operation travels as a JSON document: an object with one member, whose key
names the family and whose value holds the operation's fields. Reading demands
that single member, takes the fields it knows and ignores others; timestamps
and amounts must be non-negative safe integers, both in writing and in reading.
-/

namespace ConvergentStore.Operation

/-! ## Shapes -/

/-- The fields of an operation, as it travels. -/
def content : Operation → List (String × Json)
  | .registerSet key value timestamp =>
      [("key", .text key), ("value", .text value), ("timestamp", .number timestamp)]
  | .counterIncrement key amount => [("key", .text key), ("increment", .number amount)]
  | .setAdd key element =>
      [("key", .text key), ("value", .text element), ("action", .text "Add")]

/-- The JSON value of an operation in transit. -/
def toWire (operation : Operation) : Json :=
  .object [(operation.family.wireName, .object operation.content)]

/-! ## Fields -/

/-- A field that must be there. -/
def field (name : String) (members : List (String × Json)) :
    Except ContentMismatch Json :=
  match Json.member? name members with
  | some value => .ok value
  | none => .error (.missing name)

/-- A field that must hold a text. -/
def textField (name : String) (members : List (String × Json)) :
    Except ContentMismatch String := do
  match ← field name members with
  | .text value => return value
  | actual => throw (.notText name actual)

/-- A field that must hold the word `Add`. -/
def addField (name : String) (members : List (String × Json)) :
    Except ContentMismatch Unit := do
  match ← field name members with
  | .text "Add" => return ()
  | actual => throw (.notAdd name actual)

/-- The number of a value that must be a non-negative safe integer. -/
def countOf : Json → Except NumberMismatch Binary64
  | .number n =>
      if !Binary64.le 0 n then .error (.negative n)
      else if !n.isSafeInteger then .error (.notSafe n)
      else .ok n
  | actual => .error (.notNumber actual)

/-- A field that must hold a non-negative safe integer. -/
def countField (name : String) (members : List (String × Json)) :
    Except ContentMismatch Binary64 := do
  match countOf (← field name members) with
  | .ok n => return n
  | .error mismatch => throw (.number name mismatch)

/-! ## Reading -/

/-- The operation that a family's content describes. -/
def ofContent (family : Family) : Json → Except ContentMismatch Operation
  | .object members =>
      match family with
      | .register => do
          let key ← textField "key" members
          let value ← textField "value" members
          let timestamp ← countField "timestamp" members
          return .registerSet key value timestamp
      | .counter => do
          let key ← textField "key" members
          let amount ← countField "increment" members
          return .counterIncrement key amount
      | .set => do
          let key ← textField "key" members
          let element ← textField "value" members
          addField "action" members
          return .setAdd key element
  | actual => .error (.notObject actual)

/-- The first key, in the order of enumeration, other than the expected one. -/
def foreignKey? (expected : String) (members : List (String × Json)) : Option String :=
  ((Json.enumerate members).map (·.1)).find? (· != expected)

/-- The operation of one family that a value describes. -/
def ofFamily (family : Family) : Json → Except FamilyMismatch Operation
  | .object members =>
      match foreignKey? family.wireName members with
      | some key => .error (.unexpected key)
      | none =>
          match Json.member? family.wireName members with
          | none => .error .missing
          | some content => (ofContent family content).mapError .content
  | actual => .error (.notObject actual)

/-- The operation that a value describes: of the first family whose shape it has. -/
def ofWire (value : Json) : Except Mismatch Operation :=
  match ofFamily .register value with
  | .ok operation => .ok operation
  | .error register =>
      match ofFamily .counter value with
      | .ok operation => .ok operation
      | .error counter =>
          match ofFamily .set value with
          | .ok operation => .ok operation
          | .error set => .error ⟨register, counter, set⟩

/-! ## Documents -/

/-- The document of an operation, if its numbers may travel. -/
def encode (operation : Operation) : Except Mismatch String :=
  match ofWire operation.toWire with
  | .ok _ => .ok operation.toWire.compact
  | .error mismatch => .error mismatch

/-- The operation that a document describes. -/
def decode (document : String) : Except DecodeFault Operation :=
  match Json.parse? document with
  | some value => (ofWire value).mapError .ofMismatch
  | none => .error .notJson

end ConvergentStore.Operation
