import ConvergentStore.Text.CodePoint

/-!
# Quoted text

The string form of JSON. Writing escapes the quote, the backslash and the
control characters below the space, the six common ones by a letter and the
others by their code. Reading accepts every escape the format has; a code
outside the characters of Unicode is read as one half of a pair if the other
half follows, and as the replacement character otherwise.

Texts are well-formed Unicode here: they are sequences of characters, and hold no
half of a pair that stands alone. The format can escape such a half, and a
reader whose texts are sequences of 16-bit units keeps it; this one replaces it,
so that such escapes are read alike.
-/

namespace ConvergentStore.Text.Quoted

/-! ## Writing -/

/-- The hexadecimal digit of a value below sixteen, in small letters. -/
def hexDigit (n : Nat) : Char := Nat.digitChar n

/-- The written form of one character. -/
def escape (c : Char) : List Char :=
  if c = '"' then ['\\', '"']
  else if c = '\\' then ['\\', '\\']
  else if c = '\x08' then ['\\', 'b']
  else if c = '\t' then ['\\', 't']
  else if c = '\n' then ['\\', 'n']
  else if c = '\x0c' then ['\\', 'f']
  else if c = '\r' then ['\\', 'r']
  else if c < ' ' then
    ['\\', 'u', '0', '0', hexDigit (c.toNat / 16), hexDigit (c.toNat % 16)]
  else [c]

/-- The written form of a text, between quotes. -/
def encode (text : List Char) : List Char :=
  '"' :: (text.flatMap escape ++ ['"'])

/-- The written form of a string. -/
def quote (text : String) : String :=
  String.ofList (encode text.toList)

/-! ## Reading -/

/-- One written element: a character, or a code unit given by its number. -/
inductive Element where
  | character (c : Char)
  | unit (code : Nat)
  deriving DecidableEq

/-- Whether a code unit begins a pair. -/
def isHigh (code : Nat) : Bool := 0xD800 ≤ code && code ≤ 0xDBFF

/-- Whether a code unit ends a pair. -/
def isLow (code : Nat) : Bool := 0xDC00 ≤ code && code ≤ 0xDFFF

/-- The code point that a pair of code units denotes. -/
def paired (high low : Nat) : Nat :=
  0x10000 + 0x400 * (high - 0xD800) + (low - 0xDC00)

/--
The characters that written elements denote, pairs of code units joined. As texts
are well-formed Unicode, a half of a pair that stands alone is not kept but
becomes the replacement character.
-/
def assemble : List Element → List Char
  | [] => []
  | .unit high :: .unit low :: rest =>
      if isHigh high && isLow low then characterOf (paired high low) :: assemble rest
      else characterOf high :: assemble (.unit low :: rest)
  | .unit code :: rest => characterOf code :: assemble rest
  | .character c :: rest => c :: assemble rest

/-- The value of a hexadecimal digit of either case. -/
def hexValue? (c : Char) : Option Nat :=
  if c.isDigit then some (c.toNat - '0'.toNat)
  else if 'a' ≤ c && c ≤ 'f' then some (c.toNat - 'a'.toNat + 10)
  else if 'A' ≤ c && c ≤ 'F' then some (c.toNat - 'A'.toNat + 10)
  else none

/-- The code unit that four hexadecimal digits denote. -/
def unit? (a b c d : Char) : Option Nat :=
  match hexValue? a, hexValue? b, hexValue? c, hexValue? d with
  | some a, some b, some c, some d => some (16 * (16 * (16 * a + b) + c) + d)
  | _, _, _, _ => none

/-- The character that a one-letter escape denotes. -/
def letterEscape? (c : Char) : Option Char :=
  if c = '"' then some '"'
  else if c = '\\' then some '\\'
  else if c = '/' then some '/'
  else if c = 'b' then some '\x08'
  else if c = 't' then some '\t'
  else if c = 'n' then some '\n'
  else if c = 'f' then some '\x0c'
  else if c = 'r' then some '\r'
  else none

/--
The elements up to the closing quote, and the text after it. The opening quote
has been read already.
-/
def elements? : List Char → Option (List Element × List Char)
  | [] => none
  | '"' :: rest => some ([], rest)
  | '\\' :: 'u' :: a :: b :: c :: d :: rest =>
      match unit? a b c d, elements? rest with
      | some code, some (elements, after) => some (.unit code :: elements, after)
      | _, _ => none
  | '\\' :: letter :: rest =>
      match letterEscape? letter, elements? rest with
      | some c, some (elements, after) => some (.character c :: elements, after)
      | _, _ => none
  | c :: rest =>
      if c < ' ' then none
      else
        match elements? rest with
        | some (elements, after) => some (.character c :: elements, after)
        | none => none

/--
The text up to the closing quote, and what follows it. The text is well-formed
Unicode, whatever halves of pairs are escaped in it.
-/
def decode? (chars : List Char) : Option (List Char × List Char) :=
  (elements? chars).map fun (elements, after) => (assemble elements, after)

theorem length_lt_of_elements? {chars after : List Char} {elements : List Element}
    (read : elements? chars = some (elements, after)) :
    after.length < chars.length := by
  fun_induction elements? chars generalizing elements after with
  | case1 => cases read
  | case2 rest => cases read; simp
  | case3 a b c d rest code inner tail found unit ih =>
      cases read
      have shorter := ih found
      simp only [List.length_cons]
      omega
  | case4 => cases read
  | case5 letter rest _ c inner tail found named ih =>
      cases read
      have shorter := ih found
      simp only [List.length_cons]
      omega
  | case6 => cases read
  | case7 => cases read
  | case8 c rest _ _ _ _ inner tail found ih =>
      cases read
      have shorter := ih found
      simp only [List.length_cons]
      omega
  | case9 => cases read

theorem length_lt_of_decode? {chars text after : List Char}
    (read : decode? chars = some (text, after)) :
    after.length < chars.length := by
  simp only [decode?, Option.map_eq_some_iff, Prod.mk.injEq, Prod.exists] at read
  obtain ⟨elements, rest, found, -, rfl⟩ := read
  exact length_lt_of_elements? found

end ConvergentStore.Text.Quoted
