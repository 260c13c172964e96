import ConvergentStore.Number.Numeral
import ConvergentStore.Proofs.Number.Counts
import Mathlib.Algebra.Order.Field.Rat
import Mathlib.Tactic.FieldSimp

/-!
# Rounding decimals

A decimal is read as the number of the format that is nearest to its exact
value, however it is written. Rounding depends on a quotient alone and leaves
no number of the format nearer to it, and the two shortcuts for decimals far
beyond either end of the format come to the same as rounding. So a numeral
denotes the nearest number, and numerals of one exact value denote one number.
-/

namespace ConvergentStore

-- Powers of natural numbers are the same under every import.
attribute [local instance(high)] instPowNat

namespace Binary64

/-! ## Quotients -/

theorem nearest_mul {factor : Nat} (positive : 0 < factor) (numerator denominator : Nat) :
    nearest (numerator * factor) (denominator * factor) = nearest numerator denominator := by
  have quotient : numerator * factor / (denominator * factor) = numerator / denominator :=
    Nat.mul_div_mul_right _ _ positive
  have remainder : 2 * (numerator * factor % (denominator * factor)) =
      2 * (numerator % denominator) * factor := by
    rw [Nat.mul_mod_mul_right, Nat.mul_assoc]
  simp only [nearest, quotient, remainder, Nat.mul_lt_mul_right positive]

theorem roundUnits_mul {factor : Nat} (positive : 0 < factor) (numerator denominator : Nat) :
    roundUnits (numerator * factor) (denominator * factor) = roundUnits numerator denominator := by
  simp only [roundUnits, Nat.mul_div_mul_right _ _ positive]
  rw [Nat.mul_right_comm, nearest_mul positive]

/-- Rounding depends on the quotient alone. -/
theorem ofQuotient_congr
    {negative : Bool}
    {numerator denominator other divisor : Nat}
    (positive : 0 < denominator)
    (divisorPositive : 0 < divisor)
    (same : numerator * divisor = other * denominator) :
    ofQuotient negative numerator denominator = ofQuotient negative other divisor := by
  have rounded : roundUnits numerator denominator = roundUnits other divisor := by
    rw [← roundUnits_mul divisorPositive numerator denominator, same, Nat.mul_comm denominator,
      roundUnits_mul positive]
  simp only [ofQuotient, rounded]

/-- The product of natural numbers of the format is rounded only as a whole. -/
theorem ofNat_mul_ofNat
    {left right : Nat}
    (leftBounded : left ≤ 2 ^ 53)
    (rightBounded : right ≤ 2 ^ 53) :
    ofNat left * ofNat right = ofNat (left * right) := by
  show mul (ofNat left) (ofNat right) = ofQuotient false (scale * (left * right)) 1
  rw [ofNat_eq_finite leftBounded, ofNat_eq_finite rightBounded]
  refine ofQuotient_congr scale_pos Nat.one_pos ?_
  rw [Nat.mul_one]
  ac_rfl

/-- A multiple is divided exactly. -/
theorem ofNat_mul_div_ofNat
    {n divisor : Nat}
    (positive : 0 < divisor)
    (small : divisor ≤ 2 ^ 53)
    (bounded : n * divisor ≤ 2 ^ 53) :
    ofNat (n * divisor) / ofNat divisor = ofNat n := by
  have units : scale * divisor ≠ 0 := Nat.mul_ne_zero scale_pos.ne' positive.ne'
  show div (ofNat (n * divisor)) (ofNat divisor) = ofQuotient false (scale * n) 1
  rw [ofNat_eq_finite bounded, ofNat_eq_finite small]
  simp only [div, units, ↓reduceIte]
  refine ofQuotient_congr (Nat.pos_of_ne_zero units) Nat.one_pos ?_
  rw [Nat.mul_one]
  ac_rfl

/-- A quotient below half a unit is rounded to zero. -/
theorem ofQuotient_of_tiny
    {negative : Bool}
    {numerator denominator : Nat}
    (tiny : 2 * numerator < denominator) :
    ofQuotient negative numerator denominator = ofQuotient negative 0 1 := by
  have none : numerator / denominator = 0 := Nat.div_eq_of_lt (by omega)
  have whole : numerator % denominator = numerator := Nat.mod_eq_of_lt (by omega)
  have rounded : roundUnits numerator denominator = roundUnits 0 1 := by
    simp [roundUnits, nearest, none, whole, tiny]
  simp only [ofQuotient, rounded]

/-! ## Nearness -/

/-- How far a number of units is from a quotient, in parts of the denominator. -/
def distance (numerator denominator units : Nat) : Nat :=
  ((units * denominator : Nat) - (numerator : Int)).natAbs

theorem distance_of_le {numerator denominator units : Nat} (below : units * denominator ≤ numerator) :
    distance numerator denominator units = numerator - units * denominator := by
  simp only [distance]
  omega

theorem distance_of_ge {numerator denominator units : Nat} (above : numerator ≤ units * denominator) :
    distance numerator denominator units = units * denominator - numerator := by
  simp only [distance]
  omega

/-- No multiple of the denominator is nearer to the numerator than the nearest quotient's. -/
theorem distance_nearest_le
    {denominator : Nat}
    (positive : 0 < denominator)
    (numerator other : Nat) :
    distance numerator denominator (nearest numerator denominator) ≤
      distance numerator denominator other := by
  have split := Nat.div_add_mod' numerator denominator
  have less := Nat.mod_lt numerator positive
  generalize quotient : numerator / denominator = q at split
  generalize remainder : numerator % denominator = r at split less
  have lower : distance numerator denominator q = r := by
    rw [distance_of_le (by omega)]
    omega
  have next : (q + 1) * denominator = q * denominator + denominator := Nat.succ_mul _ _
  have upper : distance numerator denominator (q + 1) = denominator - r := by
    rw [distance_of_ge (by omega)]
    omega
  have either : r ≤ distance numerator denominator other ∨
      denominator - r ≤ distance numerator denominator other := by
    rcases Nat.lt_or_ge q other with above | below
    · have reach : (q + 1) * denominator ≤ other * denominator := Nat.mul_le_mul_right _ above
      right
      rw [distance_of_ge (by omega)]
      omega
    · have reach : other * denominator ≤ q * denominator := Nat.mul_le_mul_right _ below
      left
      rw [distance_of_le (by omega)]
      omega
  simp only [nearest, quotient, remainder]
  split
  · omega
  · split
    · omega
    · rcases Nat.mod_two_eq_zero_or_one q with even | odd
      · rw [even, Nat.add_zero]
        omega
      · rw [odd]
        omega

/-- No number of the format is nearer to a quotient than the one that it is rounded to. -/
theorem distance_roundUnits_le
    {numerator denominator units : Nat}
    (positive : 0 < denominator)
    (fits : Fits units) :
    distance numerator denominator (roundUnits numerator denominator) ≤
      distance numerator denominator units := by
  have onGrid : ∀ steps, distance numerator denominator (roundUnits numerator denominator) ≤
      distance numerator denominator
        (steps * 2 ^ ((numerator / denominator).log2 - 52)) := by
    intro steps
    have near := distance_nearest_le
      (Nat.mul_pos positive (Nat.two_pow_pos ((numerator / denominator).log2 - 52))) numerator steps
    simpa only [distance, roundUnits, Nat.mul_assoc, Nat.mul_comm denominator] using near
  rcases Nat.le_total ((numerator / denominator).log2 - 52) (units.log2 - 52) with coarse | fine
  · rcases (Nat.pow_dvd_pow 2 coarse).trans fits.2 with ⟨steps, multiple⟩
    rw [multiple, Nat.mul_comm]
    exact onGrid steps
  · rcases Nat.eq_or_lt_of_le fine with same | finer
    · rcases fits.2 with ⟨steps, multiple⟩
      rw [same] at multiple
      rw [multiple, Nat.mul_comm]
      exact onGrid steps
    · -- The number is below the leading bit of the quotient, which is on the grid.
      have large : 52 < (numerator / denominator).log2 := by omega
      have filled : numerator / denominator ≠ 0 := by
        intro none
        simp [none] at large
      have leading : 2 ^ (52 : Nat) * 2 ^ ((numerator / denominator).log2 - 52) =
          2 ^ (numerator / denominator).log2 := by
        rw [two_pow_mul_two_pow, Nat.add_sub_cancel' large.le]
      have reach : 2 ^ (numerator / denominator).log2 * denominator ≤ numerator :=
        (Nat.le_div_iff_mul_le positive).mp (Nat.log2_self_le filled)
      have below : units ≤ 2 ^ (numerator / denominator).log2 :=
        Nat.lt_log2_self.le.trans (Nat.pow_le_pow_right (by decide) (by omega))
      have scaled : units * denominator ≤ 2 ^ (numerator / denominator).log2 * denominator :=
        Nat.mul_le_mul_right _ below
      have near := onGrid (2 ^ (52 : Nat))
      rw [leading, distance_of_le reach] at near
      rw [distance_of_le (scaled.trans reach)]
      omega

/-! ## Decimals beyond the format -/

theorem exists_overflow_eq : ∃ exponent : Nat, overflow = 2 ^ exponent := by
  unfold overflow
  exact ⟨_, rfl⟩

/-- A whole number of units from the overflow limit on is rounded to infinity. -/
theorem ofQuotient_of_huge {negative : Bool} {units : Nat} (huge : overflow ≤ units) :
    ofQuotient negative units 1 = .infinity negative := by
  rcases exists_overflow_eq with ⟨exponent, power⟩
  have rounded : overflow ≤ roundUnits units 1 := by
    rw [power] at huge ⊢
    exact two_pow_le_roundUnits huge
  rw [ofQuotient, dif_neg (by omega)]

/-! ## Decimals -/

/-- A decimal reaches a power of two when its power of ten makes up for what is missing. -/
theorem two_pow_le_mul
    (exponent rest bound least : Nat)
    {digits power : Nat}
    (sum : bound = exponent + rest)
    (decimal : 2 ^ rest ≤ 10 ^ least)
    (positive : 0 < digits)
    (large : least ≤ power) :
    2 ^ bound ≤ 2 ^ exponent * (digits * 10 ^ power) := by
  rw [sum, Nat.pow_add]
  refine Nat.mul_le_mul_left _ ?_
  calc
    2 ^ rest ≤ 10 ^ least := decimal
    _ ≤ 10 ^ power := Nat.pow_le_pow_right (by decide) large
    _ ≤ digits * 10 ^ power := Nat.le_mul_of_pos_left _ positive

/-- Decimals far below a power of two stay below its half. -/
theorem two_mul_mul_lt
    (exponent : Nat)
    {digits power : Nat}
    (small : digits.log2 + (exponent + 2) ≤ 3 * power) :
    2 * (2 ^ exponent * digits) < 10 ^ power := by
  calc
    2 * (2 ^ exponent * digits) = 2 ^ (exponent + 1) * digits := by
      rw [← Nat.mul_assoc, Nat.pow_succ']
    _ < 2 ^ (exponent + 1) * 2 ^ (digits.log2 + 1) :=
      Nat.mul_lt_mul_of_pos_left Nat.lt_log2_self (Nat.two_pow_pos _)
    _ = 2 ^ (exponent + 1 + (digits.log2 + 1)) := two_pow_mul_two_pow _ _
    _ ≤ 2 ^ (3 * power) := Nat.pow_le_pow_right (by decide) (by omega)
    _ = 8 ^ power := Nat.pow_mul 2 3 power
    _ ≤ 10 ^ power := Nat.pow_le_pow_left (by decide) power

/-- A decimal is rounded once, from its exact value. -/
theorem ofDecimal_eq_ofQuotient (negative : Bool) (digits : Nat) (exponent : Int) :
    ofDecimal negative digits exponent =
      ofQuotient negative (scale * (digits * 10 ^ exponent.toNat)) (10 ^ (-exponent).toNat) := by
  have positive : 0 < 10 ^ (-exponent).toNat := Nat.pow_pos (by decide)
  unfold ofDecimal
  split
  · next zero =>
      subst zero
      exact ofQuotient_congr Nat.one_pos positive (by simp)
  split
  · next zero far =>
      have whole : (-exponent).toNat = 0 := by omega
      rw [whole, Nat.pow_zero, ofQuotient_of_huge]
      have large : 310 ≤ exponent.toNat := by omega
      have limit := two_pow_le_mul 1074 1024 2098 310 rfl (by decide +kernel)
        (Nat.pos_of_ne_zero zero) large
      unfold overflow scale
      exact limit
  split
  · next near =>
      have none : exponent.toNat = 0 := by omega
      rw [none, Nat.pow_zero, Nat.mul_one]
      have small : digits.log2 + (1074 + 2) ≤ 3 * (-exponent).toNat := by omega
      have below := two_mul_mul_lt 1074 small
      refine (ofQuotient_of_tiny ?_).symm
      unfold scale
      exact below
  · cases exponent with
    | ofNat power =>
        have whole : (-Int.ofNat power).toNat = 0 := by simp
        rw [whole, Nat.pow_zero]
        rfl
    | negSucc power =>
        have none : (Int.negSucc power).toNat = 0 := rfl
        rw [none, Nat.pow_zero, Nat.mul_one]
        rfl

end Binary64

namespace Numeral

/-! ## Numerals -/

/-- The digits of a numeral, as one natural number. -/
def coefficient (numeral : Numeral) : Nat :=
  Nat.ofDigitChars 10 (numeral.whole ++ numeral.fraction.getD []) 0

/-- The power of ten that scales the digits of a numeral. -/
def power (numeral : Numeral) : Int :=
  numeral.exponent - (numeral.fraction.getD []).length

/-- The exact value of an unsigned numeral. -/
def exact (numeral : Numeral) : Rat :=
  numeral.coefficient * 10 ^ numeral.power

theorem value_eq (negative : Bool) (numeral : Numeral) :
    numeral.value negative =
      Binary64.ofQuotient negative
        (Binary64.scale * (numeral.coefficient * 10 ^ numeral.power.toNat))
        (10 ^ (-numeral.power).toNat) :=
  Binary64.ofDecimal_eq_ofQuotient _ _ _

/-- A finite number that a numeral denotes is the nearest one of the format, with the sign. -/
theorem value_nearest
    {numeral : Numeral}
    {negative sign : Bool}
    {units other : Nat}
    {fits : Binary64.Fits units}
    (denotes : numeral.value negative = .finite sign units fits)
    (otherFits : Binary64.Fits other) :
    sign = negative ∧
      Binary64.distance (Binary64.scale * (numeral.coefficient * 10 ^ numeral.power.toNat))
          (10 ^ (-numeral.power).toNat) units ≤
        Binary64.distance (Binary64.scale * (numeral.coefficient * 10 ^ numeral.power.toNat))
          (10 ^ (-numeral.power).toNat) other := by
  rw [value_eq, Binary64.ofQuotient] at denotes
  split at denotes
  · cases denotes
    exact ⟨rfl, Binary64.distance_roundUnits_le (Nat.pow_pos (by decide)) otherFits⟩
  · cases denotes

theorem exact_eq (numeral : Numeral) :
    numeral.exact =
      ((numeral.coefficient * 10 ^ numeral.power.toNat : Nat) : Rat) /
        ((10 ^ (-numeral.power).toNat : Nat) : Rat) := by
  rw [exact]
  rcases Int.le_total 0 numeral.power with whole | scaled
  · rcases Int.eq_ofNat_of_zero_le whole with ⟨tens, power⟩
    simp [power]
  · rcases Int.eq_ofNat_of_zero_le (Int.neg_nonneg.mpr scaled) with ⟨tens, power⟩
    have negative : numeral.power = -(tens : Int) := by omega
    simp [negative, div_eq_mul_inv]

/-- Numerals of one exact value denote one number, however they are written. -/
theorem value_congr {first second : Numeral} (negative : Bool) (same : first.exact = second.exact) :
    first.value negative = second.value negative := by
  have positive : ∀ power, 0 < 10 ^ power := fun power => Nat.pow_pos (by decide)
  rw [value_eq, value_eq]
  refine Binary64.ofQuotient_congr (positive _) (positive _) ?_
  rw [exact_eq, exact_eq, div_eq_div_iff (by exact_mod_cast (positive _).ne')
    (by exact_mod_cast (positive _).ne')] at same
  have natural : first.coefficient * 10 ^ first.power.toNat * 10 ^ (-second.power).toNat =
      second.coefficient * 10 ^ second.power.toNat * 10 ^ (-first.power).toNat := by
    exact_mod_cast same
  rw [Nat.mul_assoc Binary64.scale, Nat.mul_assoc Binary64.scale, natural]

end Numeral

end ConvergentStore
