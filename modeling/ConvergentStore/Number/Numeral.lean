import ConvergentStore.Number.Decimal
import ConvergentStore.Text.Blank

/-!
# Numerals

Two written forms of numbers over one common shape: digits, perhaps a point
and more digits, perhaps an exponent. The strict form is the one JSON allows.
The lenient form is the one settings allow: either side of the point may be
missing, blanks around the numeral are ignored, a blank text is zero, infinity
has a name, and whole numbers may be written in base two, eight or sixteen.
-/

namespace ConvergentStore

/-- An unsigned decimal numeral, in the parts it is written in. -/
structure Numeral where
  /-- The digits before the point. -/
  whole : List Char
  /-- The digits after the point, if there is a point. -/
  fraction : Option (List Char)
  /-- The power of ten that scales the numeral. -/
  exponent : Int

namespace Numeral

/-! ## Shape -/

/-- A non-empty row of decimal digits. -/
def digits? (chars : List Char) : Option Nat :=
  if !chars.isEmpty && chars.all Char.isDigit then some (Nat.ofDigitChars 10 chars 0)
  else none

/-- The exponent that ends a numeral: nothing, or a mark, perhaps a sign, and digits. -/
def exponent? : List Char → Option Int
  | [] => some 0
  | mark :: rest =>
      if mark = 'e' || mark = 'E' then
        match rest with
        | '-' :: row => (digits? row).map fun n => -(n : Int)
        | '+' :: row => (digits? row).map fun n => (n : Int)
        | row => (digits? row).map fun n => (n : Int)
      else none

/-- The parts of an unsigned numeral, each of which may still be empty. -/
def ofChars? (chars : List Char) : Option Numeral :=
  let whole := chars.takeWhile Char.isDigit
  match chars.dropWhile Char.isDigit with
  | '.' :: rest =>
      (exponent? (rest.dropWhile Char.isDigit)).map fun exponent =>
        ⟨whole, some (rest.takeWhile Char.isDigit), exponent⟩
  | rest => (exponent? rest).map fun exponent => ⟨whole, none, exponent⟩

/-- The number a numeral denotes under a sign. -/
def value (negative : Bool) (numeral : Numeral) : Binary64 :=
  let fraction := numeral.fraction.getD []
  Binary64.ofDecimal negative (Nat.ofDigitChars 10 (numeral.whole ++ fraction) 0)
    (numeral.exponent - fraction.length)

/-! ## Strict form -/

/--
A numeral is strict when it has a digit before the point, no superfluous zero
there, and a digit after the point if there is one.
-/
def isStrict (numeral : Numeral) : Bool :=
  (match numeral.whole with
    | [] => false
    | ['0'] => true
    | first :: _ => first != '0') &&
  numeral.fraction != some []

/-- The number that a strict numeral, perhaps after a minus sign, denotes. -/
def strict? (chars : List Char) : Option Binary64 :=
  let (negative, unsigned) :=
    match chars with
    | '-' :: rest => (true, rest)
    | _ => (false, chars)
  match ofChars? unsigned with
  | some numeral => if numeral.isStrict then some (numeral.value negative) else none
  | none => none

/-! ## Lenient form -/

/-- The value of a digit character in bases up to sixteen. -/
def baseDigit? (base : Nat) (c : Char) : Option Nat :=
  let value? :=
    if c.isDigit then some (c.toNat - '0'.toNat)
    else if 'a' ≤ c && c ≤ 'f' then some (c.toNat - 'a'.toNat + 10)
    else if 'A' ≤ c && c ≤ 'F' then some (c.toNat - 'A'.toNat + 10)
    else none
  value?.filter (· < base)

/-- A non-empty row of digits of a base. -/
def inBase? (base : Nat) (chars : List Char) : Option Binary64 :=
  if chars.isEmpty then none
  else (chars.mapM (baseDigit? base)).map fun values =>
    Binary64.ofNat (values.foldl (fun total value => base * total + value) 0)

/-- A decimal numeral with a digit on at least one side of the point, or infinity. -/
def unsigned? (negative : Bool) (chars : List Char) : Option Binary64 :=
  if chars = "Infinity".toList then some (.infinity negative)
  else
    match ofChars? chars with
    | some numeral =>
        if numeral.whole.isEmpty && (numeral.fraction.getD []).isEmpty then none
        else some (numeral.value negative)
    | none => none

/-- The number that a lenient numeral denotes. -/
def lenient? (text : List Char) : Option Binary64 :=
  match Text.trim text with
  | [] => some 0
  | '0' :: mark :: rest =>
      if mark = 'x' || mark = 'X' then inBase? 16 rest
      else if mark = 'o' || mark = 'O' then inBase? 8 rest
      else if mark = 'b' || mark = 'B' then inBase? 2 rest
      else unsigned? false ('0' :: mark :: rest)
  | '-' :: rest => unsigned? true rest
  | '+' :: rest => unsigned? false rest
  | chars => unsigned? false chars

end Numeral

end ConvergentStore
