import ConvergentStore.Json.Shown
import ConvergentStore.Operation.Basic
import ConvergentStore.Text.Tree

/-!
# Mismatches

Why a JSON value is not an operation in transit. The value is compared with
the shape of each family in turn, and a mismatch holds what stood against each
of them. A mismatch is drawn as a tree that leads from the whole value to the
part at fault, unless that part cannot be shown.
-/

namespace ConvergentStore

/-- What stands against a value where a non-negative safe integer is expected. -/
inductive NumberMismatch where
  | notNumber (actual : Json)
  | negative (actual : Binary64)
  | notSafe (actual : Binary64)

/-- What stands against a value as the content of one family's operation. -/
inductive ContentMismatch where
  | notObject (actual : Json)
  | missing (field : String)
  | notText (field : String) (actual : Json)
  | notAdd (field : String) (actual : Json)
  | number (field : String) (mismatch : NumberMismatch)

/-- What stands against a value as one family's operation. -/
inductive FamilyMismatch where
  | notObject (actual : Json)
  | unexpected (key : String)
  | missing
  | content (mismatch : ContentMismatch)

/-- What stands against a value as an operation of each family. -/
structure Mismatch where
  register : FamilyMismatch
  counter : FamilyMismatch
  set : FamilyMismatch

/-- Why a text is not an operation in transit. -/
inductive DecodeFault where
  /-- The text is no JSON document. -/
  | notJson
  /-- The document's value has none of the shapes. -/
  | notOperation (mismatch : Mismatch)
  /-- The document's value has none of the shapes, and a part at fault cannot be shown. -/
  | indescribable

/-! ## Shapes -/

/-- The shape of the content of a family's operation. -/
def Family.contentShape : Family → String
  | .register =>
      "\x7b readonly key: string; readonly value: string; readonly timestamp: NonNegativeInt \x7d"
  | .counter => "\x7b readonly key: string; readonly increment: NonNegativeInt \x7d"
  | .set => "\x7b readonly key: string; readonly value: string; readonly action: \"Add\" \x7d"

/-- The shape of a family's operation. -/
def Family.shape (family : Family) : String :=
  "\x7b readonly " ++ family.wireName ++ ": " ++ family.contentShape ++ " \x7d"

/-! ## Trees -/

/-- The line that says what was expected and what was found. -/
def expectedLine (expected : String) (actual : String) : Text.Tree :=
  .leaf ("Expected " ++ expected ++ ", actual " ++ actual)

/-- The line that says what was expected and what was found, if that can be shown. -/
def expectedLine? (expected : String) (actual : Json) : Option Text.Tree :=
  actual.shown?.map (expectedLine expected)

/-- The line that leads to a member. -/
def memberLine (key : String) (child : Text.Tree) : Text.Tree :=
  .chain ("[" ++ Text.Quoted.quote key ++ "]") child

/-- Where a number falls short: of being a number, of its sign, or of being safe. -/
def NumberMismatch.tree? : NumberMismatch → Option Text.Tree
  | .notNumber actual =>
      (expectedLine? "number" actual).map fun line =>
        .chain "NonNegativeInt" (.chain "From side refinement failure"
          (.chain "NonNegative" (.chain "From side refinement failure" line)))
  | .negative actual =>
      some (.chain "NonNegativeInt" (.chain "From side refinement failure"
        (.chain "NonNegative" (.chain "Predicate refinement failure"
          (expectedLine "a non-negative number" actual.toText)))))
  | .notSafe actual =>
      some (.chain "NonNegativeInt" (.chain "Predicate refinement failure"
        (expectedLine "an integer" actual.toText)))

/-- The tree of a mismatch with a family's content. -/
def ContentMismatch.tree? (family : Family) : ContentMismatch → Option Text.Tree
  | .notObject actual => expectedLine? family.contentShape actual
  | .missing field =>
      some (.chain family.contentShape (memberLine field (.leaf "is missing")))
  | .notText field actual =>
      (expectedLine? "string" actual).map fun line =>
        .chain family.contentShape (memberLine field line)
  | .notAdd field actual =>
      (expectedLine? "\"Add\"" actual).map fun line =>
        .chain family.contentShape (memberLine field line)
  | .number field mismatch =>
      mismatch.tree?.map fun tree => .chain family.contentShape (memberLine field tree)

/-- The tree of a mismatch with a family's operation. -/
def FamilyMismatch.tree? (family : Family) : FamilyMismatch → Option Text.Tree
  | .notObject actual => expectedLine? family.shape actual
  | .unexpected key =>
      some (.chain family.shape (memberLine key
        (.leaf ("is unexpected, expected: " ++ Text.Quoted.quote family.wireName))))
  | .missing =>
      some (.chain family.shape (memberLine family.wireName (.leaf "is missing")))
  | .content mismatch =>
      (mismatch.tree? family).map fun tree =>
        .chain family.shape (memberLine family.wireName tree)

/-- The tree of a mismatch with every family. -/
def Mismatch.tree? (mismatch : Mismatch) : Option Text.Tree := do
  let register ← mismatch.register.tree? .register
  let counter ← mismatch.counter.tree? .counter
  let set ← mismatch.set.tree? .set
  return .chain "(parseJson <-> OperationWire)" (.chain "Type side transformation failure"
    (.node "OperationWire" [register, counter, set]))

/-- The drawing of a mismatch. -/
def Mismatch.detail? (mismatch : Mismatch) : Option String :=
  mismatch.tree?.map Text.Tree.draw

/-- The reason that a mismatch is for a text not to be an operation. -/
def DecodeFault.ofMismatch (mismatch : Mismatch) : DecodeFault :=
  if mismatch.tree?.isSome then .notOperation mismatch else .indescribable

/-- The drawing of the reason why a text is no operation. -/
def DecodeFault.detail? : DecodeFault → Option String
  | .notJson =>
      some (Text.Tree.chain "(parseJson <-> OperationWire)"
        (.chain "Encoded side transformation failure"
          (.chain "parseJson" (.leaf "Transformation process failure")))).draw
  | .notOperation mismatch => mismatch.detail?
  | .indescribable => none

end ConvergentStore
