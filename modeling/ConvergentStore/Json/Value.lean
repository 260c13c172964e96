import ConvergentStore.Number.Decimal
import ConvergentStore.Text.Quoted

/-!
# JSON values

The values of JSON documents. An object keeps its members in the order in
which their keys first arrived, and of several members with one key the last
value. Enumeration is a different order: keys that are array indices come
first, by size, and the others follow in order of arrival.
-/

namespace ConvergentStore

-- Powers of natural numbers are the same under every import.
attribute [local instance(high)] instPowNat

/-- A JSON value. -/
inductive Json where
  | null
  | bool (value : Bool)
  | number (value : Binary64)
  | text (value : String)
  | array (items : List Json)
  | object (members : List (String × Json))

namespace Json

/-! ## Members -/

/-- The value under a key. -/
def member? (key : String) : List (String × Json) → Option Json
  | [] => none
  | (stored, value) :: rest => if stored = key then some value else member? key rest

/-- Members with a value put under a key: in place if the key is there, at the end if not. -/
def putMember (key : String) (value : Json) :
    List (String × Json) → List (String × Json)
  | [] => [(key, value)]
  | (stored, old) :: rest =>
      if stored = key then (key, value) :: rest
      else (stored, old) :: putMember key value rest

/-- The object with the given members, the last one under each key prevailing. -/
def ofMembers (members : List (String × Json)) : Json :=
  .object (members.foldl (fun kept (key, value) => putMember key value kept) [])

/-! ## Enumeration -/

/-- The number of an array index: digits without a superfluous zero, below `2 ^ 32 - 1`. -/
def arrayIndex? (key : String) : Option Nat :=
  match key.toList with
  | [] => none
  | ['0'] => some 0
  | first :: rest =>
      if first != '0' && (first :: rest).all Char.isDigit then
        let index := Nat.ofDigitChars 10 (first :: rest) 0
        if index < 2 ^ (32 : Nat) - 1 then some index else none
      else none

/-- Members in the order of enumeration. -/
def enumerate {α : Type} (members : List (String × α)) : List (String × α) :=
  let index (member : String × α) := arrayIndex? member.1
  (members.filter fun member => (index member).isSome).mergeSort
      (fun left right => (index left).getD 0 ≤ (index right).getD 0) ++
    members.filter fun member => (index member).isNone

/-! ## Text -/

mutual

/-- The text of a value without blanks, members in order of arrival. -/
def compact : Json → String
  | .null => "null"
  | .bool value => if value then "true" else "false"
  | .number value => value.toText
  | .text value => Text.Quoted.quote value
  | .array items => "[" ++ ",".intercalate (compactItems items) ++ "]"
  | .object members => "\x7b" ++ ",".intercalate (compactMembers members) ++ "\x7d"

/-- The texts of the items of an array. -/
def compactItems : List Json → List String
  | [] => []
  | item :: rest => item.compact :: compactItems rest

/-- The texts of the members of an object. -/
def compactMembers : List (String × Json) → List String
  | [] => []
  | (key, value) :: rest =>
      (Text.Quoted.quote key ++ ":" ++ value.compact) :: compactMembers rest

end

end Json

end ConvergentStore
