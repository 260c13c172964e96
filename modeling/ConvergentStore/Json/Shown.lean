import ConvergentStore.Json.Value

/-!
# Values as shown

The text in which a message shows the value that it is about: without blanks,
and members in the order of enumeration. An object can bear a label, the member
`name` of its member `constructor`. A labelled object is shown as its label
with the plain text in round brackets. The label is written as a word, and a
label that cannot be put into a word leaves the value, and whatever holds it,
without a text.
-/

namespace ConvergentStore.Json

/-! ## Labels -/

/-- Whether a value counts as given: `null`, `false`, zero and the empty text do not. -/
def isGiven : Json → Bool
  | .null => false
  | .bool value => value
  | .number value => !value.isNaN && !value.equals 0
  | .text value => !value.isEmpty
  | .array _ | .object _ => true

/-- The label that an object with the given members bears, if any. -/
def label? (members : List (String × Json)) : Option Json :=
  match member? "constructor" members with
  | some (.object described) => (member? "name" described).filter isGiven
  | _ => none

mutual

/--
The word that a label is written as. All objects have one word in common; an
object with a member `toString` of its own has none.
-/
def word? : Json → Option String
  | .null => some "null"
  | .bool value => some (if value then "true" else "false")
  | .number value => some value.toText
  | .text value => some value
  | .array items => (wordItems? items).map ",".intercalate
  | .object members =>
      if (member? "toString" members).isSome then none else some "[object Object]"

/-- The words of the items of an array, that of `null` being empty. -/
def wordItems? : List Json → Option (List String)
  | [] => some []
  | .null :: rest => (wordItems? rest).map ("" :: ·)
  | item :: rest => do
      let first ← item.word?
      let others ← wordItems? rest
      return first :: others

end

/-! ## Texts -/

/-- The text of an object, given its label and its text without the label. -/
def labelled? (label : Option Json) (plain : String) : Option String :=
  match label with
  | none => some plain
  | some label => label.word?.map fun word => word ++ "(" ++ plain ++ ")"

mutual

/-- The text that a value is shown as. -/
def shown? : Json → Option String
  | .null => some "null"
  | .bool value => some (if value then "true" else "false")
  | .number value => some value.toText
  | .text value => some (Text.Quoted.quote value)
  | .array items =>
      (shownItems? items).map fun texts => "[" ++ ",".intercalate texts ++ "]"
  | .object members => do
      let texts ← shownMembers? members
      labelled? (label? members)
        ("\x7b" ++ ",".intercalate ((enumerate texts).map (·.2)) ++ "\x7d")

/-- The texts of the items of an array. -/
def shownItems? : List Json → Option (List String)
  | [] => some []
  | item :: rest => do
      let first ← item.shown?
      let others ← shownItems? rest
      return first :: others

/-- The texts of the members of an object, each with its key. -/
def shownMembers? : List (String × Json) → Option (List (String × String))
  | [] => some []
  | (key, value) :: rest => do
      let first ← value.shown?
      let others ← shownMembers? rest
      return (key, Text.Quoted.quote key ++ ":" ++ first) :: others

end

end ConvergentStore.Json
