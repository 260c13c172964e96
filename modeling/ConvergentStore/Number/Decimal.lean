import ConvergentStore.Number.Binary64

/-!
# Decimal notation

Reading and writing binary64 numbers in decimal. A decimal is read as the
number of the format nearest to its exact value. A number is written with the
fewest digits that read back to it, and with the digits nearest to its exact
value among those; integers up to `2 ^ 53` are written digit by digit.
-/

namespace ConvergentStore

-- Powers of natural numbers are the same under every import.
attribute [local instance(high)] instPowNat

namespace Binary64

/-! ## Reading -/

/--
The number nearest to `digits * 10 ^ exponent`. Decimals far beyond either end
of the format are settled by their size, so that no large power is computed
for them.
-/
def ofDecimal (negative : Bool) (digits : Nat) (exponent : Int) : Binary64 :=
  if digits = 0 then
    ofQuotient negative 0 1
  else if 310 ≤ exponent then
    .infinity negative
  else if digits.log2 + 1100 ≤ 3 * -exponent then
    ofQuotient negative 0 1
  else
    match exponent with
    | .ofNat power => ofQuotient negative (scale * (digits * 10 ^ power)) 1
    | .negSucc power => ofQuotient negative (scale * digits) (10 ^ (power + 1))

/-! ## Shortest digits -/

/-- A magnitude `units` as a quotient in steps of `10 ^ exponent`. -/
def inSteps (units : Nat) (exponent : Int) : Nat × Nat :=
  match exponent with
  | .ofNat power => (units, scale * 10 ^ power)
  | .negSucc power => (units * 10 ^ (power + 1), scale)

/-- Whether `digits * 10 ^ exponent` reads back as the number. -/
def readsBack (x : Binary64) (digits : Nat) (exponent : Int) : Bool :=
  ofDecimal false digits exponent == x

/--
The multiple of `10 ^ exponent` that reads back as the number, if one of the
two neighbours of the exact value does; the nearer one if both do, and the
even one if both are equally near.
-/
def shortestOnGrid? (x : Binary64) (units : Nat) (exponent : Int) : Option Nat :=
  let (numerator, denominator) := inSteps units exponent
  let lower := numerator / denominator
  match x.readsBack lower exponent, x.readsBack (lower + 1) exponent with
  | true, true => some (nearest numerator denominator)
  | true, false => some lower
  | false, true => some (lower + 1)
  | false, false => none

/--
The coarsest decimal grid with a multiple that reads back, searched from the
grid of exponent `finer - 1074` towards the finest one, on which every number
of the format lies exactly.
-/
def shortestFrom (x : Binary64) (units : Nat) : (finer : Nat) → Nat × Int
  | 0 => (5 ^ (1074 : Nat) * units, -1074)
  | finer + 1 =>
      let exponent : Int := (finer : Int) + 1 - 1074
      match x.shortestOnGrid? units exponent with
      | some digits => (digits, exponent)
      | none => shortestFrom x units finer

/--
An exponent of ten above a positive magnitude, counted from `-1074`: the
binary length times a little more than the decimal logarithm of two.
-/
def decimalCeiling (units : Nat) : Nat :=
  (30103 * ((units.log2 : Int) - 1073) / 100000 + 2 + 1074).toNat

/-- The fewest digits, and the exponent of the last one, that read back to a positive magnitude. -/
def shortest (units : Nat) (fits : Fits units) : Nat × Int :=
  shortestFrom (.finite false units fits) units (decimalCeiling units)

/-! ## Layout -/

/--
Digits with the point placed `point` places after the first one begins. The
point is written between positions `-5` and `21`; beyond them an exponent is.
-/
def layout (digits : List Char) (point : Int) : List Char :=
  if (digits.length : Int) ≤ point ∧ point ≤ 21 then
    digits ++ List.replicate (point - digits.length).toNat '0'
  else if 0 < point ∧ point ≤ 21 then
    digits.take point.toNat ++ '.' :: digits.drop point.toNat
  else if -6 < point ∧ point ≤ 0 then
    '0' :: '.' :: List.replicate (-point).toNat '0' ++ digits
  else
    let exponent := point - 1
    let mantissa :=
      match digits with
      | first :: second :: rest => first :: '.' :: second :: rest
      | _ => digits
    mantissa ++ 'e' :: (if exponent < 0 then '-' else '+') ::
      (Nat.toDigits 10 exponent.natAbs)

/-- A positive magnitude in decimal. -/
def magnitudeDigits (units : Nat) (fits : Fits units) : List Char :=
  if units % scale = 0 ∧ units / scale ≤ 2 ^ (53 : Nat) then
    Nat.toDigits 10 (units / scale)
  else
    let (digits, exponent) := shortest units fits
    let written := Nat.toDigits 10 digits
    layout written (written.length + exponent)

/-- The text of a number; zero is written without its sign. -/
def toText : Binary64 → String
  | .nan => "NaN"
  | .infinity true => "-Infinity"
  | .infinity false => "Infinity"
  | .finite negative units fits =>
      if units = 0 then "0"
      else if negative then String.ofList ('-' :: magnitudeDigits units fits)
      else String.ofList (magnitudeDigits units fits)

end Binary64

end ConvergentStore
