/-!
# Base64

Bytes as text in the standard alphabet of 64 characters, four characters for
three bytes, filled up with `=`. Reading skips line ends and demands full
groups, `=` at the end only and characters of the alphabet; the bits that a
shortened last group leaves over are not looked at.
-/

namespace ConvergentStore.Text.Base64

/-! ## Alphabet -/

/-- The character of a value below 64. -/
def digit (n : Nat) : Char :=
  if n < 26 then Char.ofNat ('A'.toNat + n)
  else if n < 52 then Char.ofNat ('a'.toNat + (n - 26))
  else if n < 62 then Char.ofNat ('0'.toNat + (n - 52))
  else if n = 62 then '+'
  else '/'

/-- The value of a character of the alphabet. -/
def value? (c : Char) : Option Nat :=
  if 'A' ≤ c && c ≤ 'Z' then some (c.toNat - 'A'.toNat)
  else if 'a' ≤ c && c ≤ 'z' then some (c.toNat - 'a'.toNat + 26)
  else if '0' ≤ c && c ≤ '9' then some (c.toNat - '0'.toNat + 52)
  else if c = '+' then some 62
  else if c = '/' then some 63
  else none

/-! ## Writing -/

/-- The text of a sequence of bytes. -/
def encode : List UInt8 → List Char
  | [] => []
  | [a] =>
      let bits := 16 * a.toNat
      [digit (bits / 64), digit (bits % 64), '=', '=']
  | [a, b] =>
      let bits := 4 * (256 * a.toNat + b.toNat)
      [digit (bits / 4096), digit (bits / 64 % 64), digit (bits % 64), '=']
  | a :: b :: c :: rest =>
      let bits := 256 * (256 * a.toNat + b.toNat) + c.toNat
      digit (bits / 262144) :: digit (bits / 4096 % 64) :: digit (bits / 64 % 64) ::
        digit (bits % 64) :: encode rest

/-! ## Reading -/

/-- The bytes of full groups of four characters, the last of which may be filled up. -/
def groups? : List Char → Option (List UInt8)
  | [] => some []
  | [a, b, '=', '='] =>
      match value? a, value? b with
      | some a, some b => some [.ofNat (4 * a + b / 16)]
      | _, _ => none
  | [a, b, c, '='] =>
      match value? a, value? b, value? c with
      | some a, some b, some c =>
          some [.ofNat (4 * a + b / 16), .ofNat (16 * (b % 16) + c / 4)]
      | _, _, _ => none
  | a :: b :: c :: d :: rest =>
      match value? a, value? b, value? c, value? d, groups? rest with
      | some a, some b, some c, some d, some bytes =>
          some (.ofNat (4 * a + b / 16) :: .ofNat (16 * (b % 16) + c / 4) ::
            .ofNat (64 * (c % 4) + d) :: bytes)
      | _, _, _, _, _ => none
  | _ => none

/-- The bytes that a text denotes, line ends skipped. -/
def decode? (text : List Char) : Option (List UInt8) :=
  groups? (text.filter fun c => c != '\n' && c != '\r')

end ConvergentStore.Text.Base64
