/-!
# Binary64 numbers

The numbers of the IEEE 754 binary64 format, held exactly. A finite number is
a sign and a whole number of units, one unit being `2 ^ (-1074)`, the smallest
positive number of the format. Sums, products and comparisons are therefore
whole-number arithmetic on units, and an inexact result is rounded once, to
the nearest number of the format and to the even one of two equally near.

Zero has two signs, as the format asks; `equals` identifies them and `=` does
not. Products with a large constant have it on the left: multiplication
recurses on the right factor, so a term with a variable there evaluates to
itself and not to a sum of as many terms as the constant has units.

The main statement, `fits_roundUnits`, says that rounding lands on the format
unless it overflows.
-/

namespace ConvergentStore

-- Powers of natural numbers are the same under every import.
attribute [local instance(high)] instPowNat

/-- The number of units in one. -/
@[irreducible]
def Binary64.scale : Nat := 2 ^ (1074 : Nat)

/-- The first magnitude, in units, that is too large for the format. -/
@[irreducible]
def Binary64.overflow : Nat := 2 ^ (2098 : Nat)

/--
A number of units is a magnitude of the format when it is below the overflow
limit and is determined by its 53 leading bits.
-/
def Binary64.Fits (units : Nat) : Prop :=
  units < Binary64.overflow ∧ 2 ^ (units.log2 - 52) ∣ units

instance (units : Nat) : Decidable (Binary64.Fits units) :=
  inferInstanceAs (Decidable (_ ∧ _))

/-- A number of the binary64 format. -/
inductive Binary64 where
  /-- The result that is no number. -/
  | nan
  /-- An infinity of the given sign. -/
  | infinity (negative : Bool)
  /-- A sign and a magnitude in units. -/
  | finite (negative : Bool) (units : Nat) (fits : Binary64.Fits units)
  deriving DecidableEq

namespace Binary64

/-! ## Rounding -/

/-- The whole number nearest to a quotient, and the even one of two equally near. -/
def nearest (numerator denominator : Nat) : Nat :=
  let quotient := numerator / denominator
  let twice := 2 * (numerator % denominator)
  if twice < denominator then quotient
  else if denominator < twice then quotient + 1
  else quotient + quotient % 2

/--
A quotient of units rounded to 53 leading bits: the quotient is measured in
steps of the power of two that leaves 53 bits before the point.
-/
def roundUnits (numerator denominator : Nat) : Nat :=
  let step := 2 ^ ((numerator / denominator).log2 - 52)
  nearest numerator (denominator * step) * step

theorem nearest_le (numerator denominator : Nat) :
    nearest numerator denominator ≤ numerator / denominator + 1 := by
  simp only [nearest]
  split
  · omega
  · split <;> omega

theorem leading_lt (quotient : Nat) :
    quotient / 2 ^ (quotient.log2 - 52) < 2 ^ (53 : Nat) := by
  rw [Nat.div_lt_iff_lt_mul (Nat.two_pow_pos _), ← Nat.pow_add]
  exact Nat.lt_of_lt_of_le Nat.lt_log2_self
    (Nat.pow_le_pow_right (by decide) (by omega))

/-- Fifty-three leading bits survive a multiplication by a power of two. -/
theorem leading_dvd (leading exponent : Nat) (bounded : leading ≤ 2 ^ (53 : Nat)) :
    2 ^ ((leading * 2 ^ exponent).log2 - 52) ∣ leading * 2 ^ exponent := by
  by_cases zero : leading = 0
  · simp [zero]
  have positive : leading * 2 ^ exponent ≠ 0 :=
    Nat.mul_ne_zero zero (Nat.ne_of_gt (Nat.two_pow_pos _))
  by_cases full : leading = 2 ^ (53 : Nat)
  · rw [full, ← Nat.pow_add, Nat.log2_two_pow]
    exact Nat.pow_dvd_pow 2 (by omega)
  · have small : (leading * 2 ^ exponent).log2 < 53 + exponent := by
      rw [Nat.log2_lt positive, Nat.pow_add]
      exact Nat.mul_lt_mul_of_pos_right (by omega) (Nat.two_pow_pos _)
    exact Nat.dvd_trans (Nat.pow_dvd_pow 2 (by omega)) (Nat.dvd_mul_left _ _)

/-- Rounding lands on the format unless it overflows. -/
theorem fits_roundUnits (numerator denominator : Nat)
    (bounded : roundUnits numerator denominator < overflow) :
    Fits (roundUnits numerator denominator) := by
  refine ⟨bounded, leading_dvd _ _ ?_⟩
  have upper := nearest_le numerator
    (denominator * 2 ^ ((numerator / denominator).log2 - 52))
  rw [← Nat.div_div_eq_div_mul] at upper
  have leading := leading_lt (numerator / denominator)
  omega

theorem nearest_of_dvd {numerator denominator : Nat} (positive : 0 < denominator)
    (divides : denominator ∣ numerator) :
    nearest numerator denominator = numerator / denominator := by
  simp [nearest, Nat.mod_eq_zero_of_dvd divides, positive]

/-- Rounding does not change a magnitude of the format. -/
theorem roundUnits_of_fits {units : Nat} (fits : Fits units) :
    roundUnits units 1 = units := by
  simp only [roundUnits, Nat.div_one, Nat.one_mul]
  rw [nearest_of_dvd (Nat.two_pow_pos _) fits.2]
  exact Nat.div_mul_cancel fits.2

/-- The number nearest to a quotient of units, with the given sign. -/
def ofQuotient (negative : Bool) (numerator denominator : Nat) : Binary64 :=
  if bounded : roundUnits numerator denominator < overflow then
    .finite negative (roundUnits numerator denominator)
      (fits_roundUnits numerator denominator bounded)
  else
    .infinity negative

theorem ofQuotient_of_fits {negative : Bool} {units : Nat} (fits : Fits units) :
    ofQuotient negative units 1 = .finite negative units fits := by
  simp only [ofQuotient, roundUnits_of_fits fits]
  rw [dif_pos fits.1]

/-! ## Whole numbers -/

/-- The number nearest to a natural number. -/
def ofNat (n : Nat) : Binary64 :=
  ofQuotient false (scale * n) 1

/-- The number nearest to an integer. -/
def ofInt (n : Int) : Binary64 :=
  ofQuotient (n < 0) (scale * n.natAbs) 1

instance (n : Nat) : OfNat Binary64 n := ⟨ofNat n⟩

/-- Positive infinity. -/
def unbounded : Binary64 := .infinity false

/-- The largest natural number up to which every natural number is in the format. -/
def largestSafe : Nat := 2 ^ (53 : Nat) - 1

/-- The signed magnitude in units, for a finite number. -/
def signedUnits? : Binary64 → Option Int
  | .finite true units _ => some (-(units : Int))
  | .finite false units _ => some units
  | _ => none

/-- The integer that a number is, if it is one. -/
def toInt? (x : Binary64) : Option Int :=
  match x.signedUnits? with
  | some units => if units % scale = 0 then some (units / scale) else none
  | none => none

theorem scale_pos : 0 < scale := by
  unfold scale
  generalize 1074 = exponent
  exact Nat.two_pow_pos exponent

theorem pow_mul_pow_lt (first second bound : Nat) (less : first + second < bound) :
    2 ^ first * 2 ^ second < 2 ^ bound := by
  rw [← Nat.pow_add]
  exact Nat.pow_lt_pow_right (by decide) less

theorem two_pow_mul_two_pow (first second : Nat) :
    2 ^ first * 2 ^ second = 2 ^ (first + second) :=
  (Nat.pow_add 2 first second).symm

/-- The first natural number beyond the safe ones is a power of two in units. -/
theorem exists_scale_mul_eq : ∃ exponent : Nat, scale * 2 ^ (53 : Nat) = 2 ^ exponent := by
  unfold scale
  exact ⟨_, two_pow_mul_two_pow 1074 53⟩

/-- Natural numbers up to `2 ^ 53` are in the format. -/
theorem fits_scale_mul {n : Nat} (bounded : n ≤ 2 ^ (53 : Nat)) : Fits (scale * n) := by
  constructor
  · have room : scale * 2 ^ (53 : Nat) < overflow := by
      unfold scale overflow
      exact pow_mul_pow_lt 1074 53 2098 (by decide)
    exact Nat.lt_of_le_of_lt (Nat.mul_le_mul_left _ bounded) room
  · rw [Nat.mul_comm]
    unfold scale
    exact leading_dvd n 1074 bounded

@[simp]
theorem toInt?_ofNat {n : Nat} (bounded : n ≤ 2 ^ (53 : Nat)) :
    (ofNat n).toInt? = some (n : Int) := by
  unfold ofNat
  rw [ofQuotient_of_fits (fits_scale_mul bounded)]
  simp only [toInt?, signedUnits?]
  norm_cast
  simp [Nat.mul_div_cancel_left _ scale_pos]

/-- Whether a number is an integer. -/
def isInteger (x : Binary64) : Bool :=
  x.toInt?.isSome

/-- Whether a number is an integer that no rounding can have reached from another. -/
def isSafeInteger (x : Binary64) : Bool :=
  match x.toInt? with
  | some n => n.natAbs ≤ largestSafe
  | none => false

/-! ## Comparison -/

def isNaN : Binary64 → Bool
  | .nan => true
  | _ => false

/-- Whether a number is neither infinite nor `nan`. -/
def isFinite : Binary64 → Bool
  | .finite .. => true
  | _ => false

/--
The place of a number on the line, in units. The infinities stand at the
overflow limits; `nan` has no place and is kept out by the comparisons.
-/
def place : Binary64 → Int
  | .nan => 0
  | .infinity true => -(overflow : Int)
  | .infinity false => overflow
  | .finite true units _ => -(units : Int)
  | .finite false units _ => units

/-- Whether two numbers are on the line, the first one below the second. -/
def lt (left right : Binary64) : Bool :=
  !left.isNaN && !right.isNaN && left.place < right.place

/-- Whether two numbers are on the line, the first one not above the second. -/
def le (left right : Binary64) : Bool :=
  !left.isNaN && !right.isNaN && left.place ≤ right.place

/-- Numeric equality: zeros of either sign are equal, and `nan` equals nothing. -/
def equals (left right : Binary64) : Bool :=
  !left.isNaN && !right.isNaN && left.place == right.place

/-- Equality for searching: numeric equality, except that `nan` is found by `nan`. -/
def sameValue (left right : Binary64) : Bool :=
  (left.isNaN && right.isNaN) || left.equals right

/-- Whether a number is a safe integer and not negative; zeros of either sign are. -/
def isCount (x : Binary64) : Bool :=
  x.isSafeInteger && le 0 x

/-- The larger of two numbers; `nan` if one of them is. -/
def max (left right : Binary64) : Binary64 :=
  if left.isNaN || right.isNaN then .nan
  else if left.lt right then right
  else left

/-! ## Arithmetic -/

/-- The number with the opposite sign. -/
def neg : Binary64 → Binary64
  | .nan => .nan
  | .infinity negative => .infinity (!negative)
  | .finite negative units fits => .finite (!negative) units fits

/-- The rounded sum. A sum of zero is negative only when both terms are negative. -/
def add : Binary64 → Binary64 → Binary64
  | .finite leftSign left _, .finite rightSign right _ =>
      let sum : Int :=
        (if leftSign then -(left : Int) else left) +
          (if rightSign then -(right : Int) else right)
      ofQuotient (if sum = 0 then leftSign && rightSign else sum < 0) sum.natAbs 1
  | .infinity leftSign, .infinity rightSign =>
      if leftSign = rightSign then .infinity leftSign else .nan
  | .infinity negative, .finite .. => .infinity negative
  | .finite .., .infinity negative => .infinity negative
  | .nan, _ => .nan
  | _, .nan => .nan

/-- The rounded difference. -/
def sub (left right : Binary64) : Binary64 :=
  left.add right.neg

/-- The rounded product. -/
def mul : Binary64 → Binary64 → Binary64
  | .finite leftSign left _, .finite rightSign right _ =>
      ofQuotient (leftSign != rightSign) (left * right) scale
  | .infinity leftSign, .infinity rightSign => .infinity (leftSign != rightSign)
  | .infinity leftSign, .finite rightSign units _ =>
      if units = 0 then .nan else .infinity (leftSign != rightSign)
  | .finite leftSign units _, .infinity rightSign =>
      if units = 0 then .nan else .infinity (leftSign != rightSign)
  | .nan, _ => .nan
  | _, .nan => .nan

/-- The rounded quotient. -/
def div : Binary64 → Binary64 → Binary64
  | .finite leftSign left _, .finite rightSign right _ =>
      if right = 0 then
        if left = 0 then .nan else .infinity (leftSign != rightSign)
      else
        ofQuotient (leftSign != rightSign) (scale * left) right
  | .infinity _, .infinity _ => .nan
  | .infinity leftSign, .finite rightSign .. => .infinity (leftSign != rightSign)
  | .finite leftSign .., .infinity rightSign => ofQuotient (leftSign != rightSign) 0 1
  | .nan, _ => .nan
  | _, .nan => .nan

instance : Neg Binary64 := ⟨neg⟩
instance : Add Binary64 := ⟨add⟩
instance : Sub Binary64 := ⟨sub⟩
instance : Mul Binary64 := ⟨mul⟩
instance : Div Binary64 := ⟨div⟩

/-- The largest integer that is not above the number. -/
def floor (x : Binary64) : Binary64 :=
  match x with
  | .finite true units _ =>
      if units = 0 then x else ofInt (-(units : Int) / scale)
  | .finite false units _ => ofInt ((units : Int) / scale)
  | _ => x

/-- The nearest integer, and the larger one of two equally near, of a finite number. -/
def nearestInt? (x : Binary64) : Option Int :=
  x.signedUnits?.map fun units => (2 * units + scale) / (2 * scale)

end Binary64

end ConvergentStore
