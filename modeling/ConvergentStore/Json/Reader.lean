import ConvergentStore.Json.Token

/-!
# Reading JSON documents

A document is read token by token. The reader stands at a place inside the
arrays and objects that are still open, and each token moves it to the next
place or is refused. A text is a document when its tokens move the reader from
the start to the end of one value with nothing open.
-/

namespace ConvergentStore.Json

/-- An open array or object, with what has been read of it, newest first. -/
inductive Frame where
  | array (items : List Json)
  | object (members : List (String × Json)) (key : String)

/-- Where the reader stands, inside the frames that are open, innermost first. -/
inductive Place where
  /-- Before a value. -/
  | beforeValue (frames : List Frame)
  /-- After the opening of an array. -/
  | arrayStart (frames : List Frame)
  /-- After the opening of an object. -/
  | objectStart (frames : List Frame)
  /-- After a comma in an object. -/
  | beforeKey (members : List (String × Json)) (frames : List Frame)
  /-- After a key. -/
  | afterKey (members : List (String × Json)) (key : String) (frames : List Frame)
  /-- After a value. -/
  | done (value : Json) (frames : List Frame)

namespace Place

/-- The place after a token that stands where a value should. -/
def beginValue (frames : List Frame) : Token → Option Place
  | .null => some (.done .null frames)
  | .bool value => some (.done (.bool value) frames)
  | .number value => some (.done (.number value) frames)
  | .text value => some (.done (.text value) frames)
  | .openArray => some (.arrayStart frames)
  | .openObject => some (.objectStart frames)
  | _ => none

/-- The place after a token. -/
def next : Place → Token → Option Place
  | .beforeValue frames, token => beginValue frames token
  | .arrayStart frames, .closeArray => some (.done (.array []) frames)
  | .arrayStart frames, token => beginValue (.array [] :: frames) token
  | .objectStart frames, .closeObject => some (.done (.object []) frames)
  | .objectStart frames, .text key => some (.afterKey [] key frames)
  | .beforeKey members frames, .text key => some (.afterKey members key frames)
  | .afterKey members key frames, .colon => some (.beforeValue (.object members key :: frames))
  | .done value (.array items :: frames), .comma =>
      some (.beforeValue (.array (value :: items) :: frames))
  | .done value (.array items :: frames), .closeArray =>
      some (.done (.array (value :: items).reverse) frames)
  | .done value (.object members key :: frames), .comma =>
      some (.beforeKey ((key, value) :: members) frames)
  | .done value (.object members key :: frames), .closeObject =>
      some (.done (ofMembers ((key, value) :: members).reverse) frames)
  | _, _ => none

/-- The value of a document that ends at a place. -/
def finished? : Place → Option Json
  | .done value [] => some value
  | _ => none

end Place

/-- The value that a row of tokens denotes. -/
def ofTokens? (tokens : List Token) : Option Json :=
  (tokens.foldlM Place.next (.beforeValue [])).bind Place.finished?

/-- The value that a document denotes. -/
def parse? (document : String) : Option Json :=
  (Token.scan? document.toList).bind ofTokens?

end ConvergentStore.Json
