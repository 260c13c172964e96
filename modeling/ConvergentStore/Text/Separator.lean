/-!
# Separators

Cutting a text at every place where a separator stands, from left to right.
-/

namespace ConvergentStore.Text

/-- What follows a separator that a text begins with. -/
def afterSeparator? (separator : List Char) (text : List Char) : Option (List Char) :=
  if separator.isPrefixOf text then some (text.drop separator.length) else none

/-- The text before the first separator and, if there is one, the text after it. -/
def cut (separator : List Char) : List Char → List Char × Option (List Char)
  | [] => ([], afterSeparator? separator [])
  | c :: rest =>
      match afterSeparator? separator (c :: rest) with
      | some after => ([], some after)
      | none =>
          let (before, after) := cut separator rest
          (c :: before, after)

/-- Whether a separator stands anywhere in a text. -/
def contains (separator text : List Char) : Bool :=
  (cut separator text).2.isSome

end ConvergentStore.Text
