import ConvergentStore.Json.Value
import ConvergentStore.Number.Numeral

/-!
# JSON tokens

The words of a JSON document. A mark is one character, a text runs to its
closing quote, and everything else is a word: a longest run of characters that
are neither marks, quotes nor blanks, which must be a constant or a numeral.
-/

namespace ConvergentStore.Json

/-- A word of a JSON document. -/
inductive Token where
  | openObject
  | closeObject
  | openArray
  | closeArray
  | colon
  | comma
  | null
  | bool (value : Bool)
  | number (value : Binary64)
  | text (value : String)
  deriving DecidableEq

namespace Token

/-- The four blanks that may stand between the words of a document. -/
def isBlank (c : Char) : Bool :=
  c == ' ' || c == '\t' || c == '\n' || c == '\r'

/-- The token of a one-character mark. -/
def mark? (c : Char) : Option Token :=
  if c = '\x7b' then some .openObject
  else if c = '\x7d' then some .closeObject
  else if c = '[' then some .openArray
  else if c = ']' then some .closeArray
  else if c = ':' then some .colon
  else if c = ',' then some .comma
  else none

/-- Whether a character belongs to words: it is neither a blank, a mark nor a quote. -/
def isWordChar (c : Char) : Bool :=
  !isBlank c && (mark? c).isNone && c != '"'

/-- The token of a word. -/
def ofWord? (word : List Char) : Option Token :=
  if word = "null".toList then some .null
  else if word = "true".toList then some (.bool true)
  else if word = "false".toList then some (.bool false)
  else (Numeral.strict? word).map .number

/-- The first token of a text that begins with neither a blank nor its end, and the rest. -/
def first? (c : Char) (rest : List Char) : Option (Token × List Char) :=
  if c = '"' then
    (Text.Quoted.decode? rest).map fun (content, after) =>
      (.text (String.ofList content), after)
  else
    match mark? c with
    | some token => some (token, rest)
    | none =>
        (ofWord? (c :: rest.takeWhile isWordChar)).map fun token =>
          (token, rest.dropWhile isWordChar)

theorem length_le_of_first? {c : Char} {rest after : List Char} {token : Token}
    (read : first? c rest = some (token, after)) :
    after.length ≤ rest.length := by
  unfold first? at read
  split at read
  · simp only [Option.map_eq_some_iff, Prod.mk.injEq, Prod.exists] at read
    obtain ⟨content, tail, found, -, rfl⟩ := read
    exact Nat.le_of_lt (Text.Quoted.length_lt_of_decode? found)
  · split at read
    · cases read; exact Nat.le_refl _
    · simp only [Option.map_eq_some_iff, Prod.mk.injEq] at read
      obtain ⟨word, -, -, rfl⟩ := read
      exact (List.dropWhile_sublist _).length_le

/-- The tokens of a text. -/
def scan? : List Char → Option (List Token)
  | [] => some []
  | c :: rest =>
      if isBlank c then scan? rest
      else
        match _read : first? c rest with
        | some (token, after) => (scan? after).map (token :: ·)
        | none => none
  termination_by chars => chars.length
  decreasing_by
    · simp
    · have shorter := length_le_of_first? _read
      simp only [List.length_cons]
      omega

end Token

end ConvergentStore.Json
