import ConvergentStore.Number.Binary64
import Mathlib.Algebra.GroupWithZero.Nat
import Mathlib.Order.Nat

/-!
# Counts

Timestamps, amounts and totals are counts: natural numbers up to the largest
safe one. A count has one natural number that it denotes, and zero is the only
count with two forms. This module reads comparisons and sums of counts as
comparisons and sums of natural numbers, and shows that a sum is accepted as
safe exactly when the natural numbers add up to a safe one.
-/

namespace ConvergentStore.Binary64

/-! ## Natural numbers of the format -/

/-- The natural number that a count denotes. -/
def toNat (x : Binary64) : Nat :=
  (x.toInt?.getD 0).toNat

/-- The number without the sign of zero. -/
def canonical (x : Binary64) : Binary64 :=
  if x.equals 0 then 0 else x

theorem largestSafe_le : largestSafe ≤ 2 ^ 53 := by
  decide

theorem ofNat_eq_finite {n : Nat} (bounded : n ≤ 2 ^ 53) :
    ofNat n = .finite false (scale * n) (fits_scale_mul bounded) := by
  unfold ofNat
  exact ofQuotient_of_fits (fits_scale_mul bounded)

theorem zero_eq_finite :
    (0 : Binary64) = .finite false (scale * 0) (fits_scale_mul (by decide)) :=
  ofNat_eq_finite (by decide)

@[simp]
theorem place_zero : (0 : Binary64).place = 0 := by
  rw [zero_eq_finite]
  simp [place]

@[simp]
theorem isNaN_zero : (0 : Binary64).isNaN = false := by
  rw [zero_eq_finite]
  rfl

theorem toNat_ofNat {n : Nat} (bounded : n ≤ 2 ^ 53) : (ofNat n).toNat = n := by
  simp [toNat, toInt?_ofNat bounded]

/-- A number equals a natural number when it has its units, and no sign unless it is zero. -/
theorem equals_ofNat_iff {x : Binary64} {n : Nat} (bounded : n ≤ 2 ^ 53) :
    x.equals (ofNat n) = true ↔
      ∃ negative fits, x = .finite negative (scale * n) fits ∧ (negative = true → n = 0) := by
  have room : scale * n < overflow := (fits_scale_mul bounded).1
  have positive := scale_pos
  rw [ofNat_eq_finite bounded]
  constructor
  · intro equal
    cases x with
    | nan => simp [equals, isNaN] at equal
    | infinity negative =>
        cases negative <;>
          simp only [equals, isNaN, place, Bool.not_false, Bool.and_true, Bool.true_and,
            beq_iff_eq] at equal <;>
          omega
    | finite negative units fits =>
        cases negative with
        | false =>
            simp only [equals, isNaN, place, Bool.not_false, Bool.and_true, Bool.true_and,
              beq_iff_eq, Int.ofNat_inj] at equal
            subst equal
            exact ⟨false, fits, rfl, by simp⟩
        | true =>
            simp only [equals, isNaN, place, Bool.not_false, Bool.and_true, Bool.true_and,
              beq_iff_eq] at equal
            have none : scale * n = 0 := by omega
            have zero : units = scale * n := by omega
            subst zero
            refine ⟨true, fits, rfl, fun _ => ?_⟩
            exact (Nat.mul_eq_zero.mp none).resolve_left positive.ne'
  · rintro ⟨negative, fits, rfl, unsigned⟩
    cases negative with
    | false => simp [equals, isNaN, place]
    | true =>
        have zero := unsigned rfl
        subst zero
        simp [equals, isNaN, place]

theorem canonical_eq_ofNat {x : Binary64} {n : Nat} (bounded : n ≤ 2 ^ 53)
    (equal : x.equals (ofNat n) = true) :
    x.canonical = ofNat n := by
  rcases (equals_ofNat_iff bounded).mp equal with ⟨negative, fits, rfl, unsigned⟩
  by_cases zero : n = 0
  · subst zero
    have isZero : (finite negative (scale * 0) fits).equals 0 = true :=
      (equals_ofNat_iff (n := 0) (by decide)).mpr ⟨negative, fits, rfl, fun _ => rfl⟩
    simp only [canonical, isZero, ↓reduceIte]
    rfl
  · have positive : negative = false := by
      cases negative with
      | false => rfl
      | true => exact absurd (unsigned rfl) zero
    subst positive
    have notZero : ¬ (finite false (scale * n) fits).equals 0 = true := by
      intro isZero
      rcases (equals_ofNat_iff (n := 0) (by decide)).mp isZero with ⟨_, _, same, _⟩
      simp only [finite.injEq, Nat.mul_zero, Nat.mul_eq_zero] at same
      rcases same.2 with none | none
      · exact absurd none scale_pos.ne'
      · exact zero none
    simp only [canonical, notZero]
    exact (ofNat_eq_finite bounded).symm

theorem toInt?_of_equals_ofNat {x : Binary64} {n : Nat} (bounded : n ≤ 2 ^ 53)
    (equal : x.equals (ofNat n) = true) :
    x.toInt? = some (n : Int) := by
  rcases (equals_ofNat_iff bounded).mp equal with ⟨negative, fits, rfl, unsigned⟩
  cases negative with
  | false =>
      have same := toInt?_ofNat bounded
      rw [ofNat_eq_finite bounded] at same
      exact same
  | true =>
      have zero := unsigned rfl
      subst zero
      simp [toInt?, signedUnits?]

theorem toNat_eq {x : Binary64} {n : Nat} (bounded : n ≤ 2 ^ 53)
    (equal : x.equals (ofNat n) = true) :
    x.toNat = n := by
  simp [toNat, toInt?_of_equals_ofNat bounded equal]

theorem toNat_canonical (x : Binary64) : x.canonical.toNat = x.toNat := by
  rw [canonical]
  split
  · next zero =>
      have right : x.toNat = 0 := toNat_eq (by decide) zero
      rw [right]
      exact toNat_ofNat (by decide)
  · rfl

/-! ## Counts -/

theorem zero_le_iff {x : Binary64} : le 0 x = true ↔ x.isNaN = false ∧ 0 ≤ x.place := by
  simp only [le, isNaN_zero, place_zero, Bool.not_false, Bool.true_and, Bool.and_eq_true,
    Bool.not_eq_true', decide_eq_true_eq]

theorem unsigned_of_zero_le {negative : Bool} {units : Nat} {fits : Fits units}
    (above : le 0 (finite negative units fits) = true) :
    negative = true → units = 0 := by
  rintro rfl
  have notBelow : (0 : Int) ≤ -(units : Int) := (zero_le_iff.mp above).2
  omega

theorem multiple_of_isSafeInteger {units : Nat} {fits : Fits units}
    (safe : (finite false units fits).isSafeInteger = true) :
    ∃ n : Nat, n ≤ largestSafe ∧ units = scale * n := by
  simp only [isSafeInteger, toInt?, signedUnits?] at safe
  split at safe
  · next whole found =>
      split at found
      · next divides =>
          cases found
          refine ⟨units / scale, ?_, ?_⟩
          · simp only [decide_eq_true_eq] at safe
            exact_mod_cast safe
          · have none : units % scale = 0 := by exact_mod_cast divides
            exact (Nat.mul_div_cancel' (Nat.dvd_of_mod_eq_zero none)).symm
      · cases found
  · cases safe

/-- A count is a number that equals a natural number up to the largest safe one. -/
theorem isCount_iff {x : Binary64} :
    x.isCount = true ↔ ∃ n : Nat, n ≤ largestSafe ∧ x.equals (ofNat n) = true := by
  constructor
  · intro count
    simp only [isCount, Bool.and_eq_true] at count
    rcases count with ⟨safe, above⟩
    cases x with
    | nan => simp [isSafeInteger, toInt?, signedUnits?] at safe
    | infinity negative => simp [isSafeInteger, toInt?, signedUnits?] at safe
    | finite negative units fits =>
        have unsigned := unsigned_of_zero_le above
        cases negative with
        | false =>
            rcases multiple_of_isSafeInteger safe with ⟨n, small, rfl⟩
            exact ⟨n, small, (equals_ofNat_iff (small.trans largestSafe_le)).mpr
              ⟨false, fits, rfl, by simp⟩⟩
        | true =>
            have zero := unsigned rfl
            subst zero
            exact ⟨0, Nat.zero_le _, (equals_ofNat_iff (by decide)).mpr
              ⟨true, fits, rfl, fun _ => rfl⟩⟩
  · rintro ⟨n, small, equal⟩
    have bounded := small.trans largestSafe_le
    have whole := toInt?_of_equals_ofNat bounded equal
    have above : le 0 x = true := by
      simp only [equals, ofNat_eq_finite bounded, Bool.and_eq_true, Bool.not_eq_true',
        beq_iff_eq] at equal
      refine zero_le_iff.mpr ⟨equal.1.1, ?_⟩
      rw [equal.2]
      show (0 : Int) ≤ ((scale * n : Nat) : Int)
      exact Int.natCast_nonneg _
    simp only [isCount, isSafeInteger, whole, above, Bool.and_true, decide_eq_true_eq]
    exact small

theorem isCount_ofNat {n : Nat} (small : n ≤ largestSafe) : (ofNat n).isCount = true := by
  refine isCount_iff.mpr ⟨n, small, ?_⟩
  have bounded := small.trans largestSafe_le
  exact (equals_ofNat_iff bounded).mpr ⟨false, _, ofNat_eq_finite bounded, nofun⟩

/-- The sign of zero makes no difference to being a count. -/
theorem isCount_canonical (x : Binary64) : x.canonical.isCount = x.isCount := by
  rw [canonical]
  split
  · next zero =>
      have right : x.isCount = true := isCount_iff.mpr ⟨0, by decide, zero⟩
      rw [right]
      exact isCount_ofNat (by decide)
  · rfl

section

variable {x y : Binary64} (xCount : x.isCount = true) (yCount : y.isCount = true)

include xCount

theorem toNat_le_of_isCount : x.toNat ≤ largestSafe := by
  rcases isCount_iff.mp xCount with ⟨n, small, equal⟩
  rw [toNat_eq (small.trans largestSafe_le) equal]
  exact small

theorem equals_ofNat_toNat : x.equals (ofNat x.toNat) = true := by
  rcases isCount_iff.mp xCount with ⟨n, small, equal⟩
  rw [toNat_eq (small.trans largestSafe_le) equal]
  exact equal

theorem canonical_of_isCount : x.canonical = ofNat x.toNat :=
  canonical_eq_ofNat ((toNat_le_of_isCount xCount).trans largestSafe_le)
    (equals_ofNat_toNat xCount)

theorem place_of_isCount : x.place = (scale : Int) * x.toNat := by
  have bounded := (toNat_le_of_isCount xCount).trans largestSafe_le
  have equal := equals_ofNat_toNat xCount
  rw [ofNat_eq_finite bounded] at equal
  simp only [equals, Bool.and_eq_true, beq_iff_eq] at equal
  rw [equal.2]
  simp [place]

theorem isNaN_of_isCount : x.isNaN = false := by
  have equal := equals_ofNat_toNat xCount
  simp only [equals, Bool.and_eq_true, Bool.not_eq_true'] at equal
  exact equal.1.1

include yCount

/-- Counts are ordered as the natural numbers that they denote. -/
theorem lt_iff_toNat_lt : x.lt y = true ↔ x.toNat < y.toNat := by
  have positive : (0 : Int) < scale := by exact_mod_cast scale_pos
  simp only [lt, isNaN_of_isCount xCount, isNaN_of_isCount yCount, place_of_isCount xCount,
    place_of_isCount yCount, Bool.not_false, Bool.true_and, decide_eq_true_eq]
  rw [Int.mul_lt_mul_left positive]
  exact Int.ofNat_lt

/-- Counts are equal when they denote the same natural number. -/
theorem equals_iff_toNat_eq : x.equals y = true ↔ x.toNat = y.toNat := by
  have positive : (scale : Int) ≠ 0 := by exact_mod_cast scale_pos.ne'
  simp only [equals, isNaN_of_isCount xCount, isNaN_of_isCount yCount, place_of_isCount xCount,
    place_of_isCount yCount, Bool.not_false, Bool.true_and, beq_iff_eq]
  rw [Int.mul_eq_mul_left_iff positive]
  exact Int.ofNat_inj

end

/-! ## Sums -/

theorem finite_add_finite {negative : Bool} {left right : Nat} {leftFits : Fits left}
    {rightFits : Fits right} (unsigned : negative = true → right = 0) :
    finite false left leftFits + finite negative right rightFits =
      ofQuotient false (left + right) 1 := by
  show add _ _ = _
  cases negative with
  | false =>
      have nonnegative : ¬ ((left : Int) + right < 0) := by omega
      have magnitude : ((left : Int) + right).natAbs = left + right := by omega
      simp [add, nonnegative, magnitude]
  | true =>
      have none := unsigned rfl
      subst none
      have nonnegative : ¬ ((left : Int) < 0) := by omega
      simp [add, nonnegative]

/-- A sum of counts is rounded as the natural number that it denotes. -/
theorem ofNat_add_of_isCount {m : Nat} {x : Binary64}
    (small : m ≤ largestSafe)
    (xCount : x.isCount = true) :
    ofNat m + x = ofNat (m + x.toNat) := by
  have bounded := (toNat_le_of_isCount xCount).trans largestSafe_le
  have equal := equals_ofNat_toNat xCount
  generalize x.toNat = n at bounded equal
  rcases (equals_ofNat_iff bounded).mp equal with ⟨negative, fits, rfl, unsigned⟩
  calc
    ofNat m + finite negative (scale * n) fits =
        ofQuotient false (scale * m + scale * n) 1 := by
      rw [ofNat_eq_finite (small.trans largestSafe_le)]
      exact finite_add_finite fun sign => by rw [unsigned sign, Nat.mul_zero]
    _ = ofNat (m + n) := by rw [← Nat.mul_add]; rfl

/-- Rounding does not cross a power of two downwards. -/
theorem two_pow_le_roundUnits {exponent units : Nat} (above : 2 ^ exponent ≤ units) :
    2 ^ exponent ≤ roundUnits units 1 := by
  have positive : 0 < units := lt_of_lt_of_le (Nat.two_pow_pos exponent) above
  simp only [roundUnits, Nat.div_one, Nat.one_mul]
  have whole : units / 2 ^ (units.log2 - 52) ≤ nearest units (2 ^ (units.log2 - 52)) := by
    simp only [nearest]
    split
    · exact le_refl _
    · split <;> omega
  refine le_trans ?_ (Nat.mul_le_mul_right _ whole)
  rcases Nat.le_total (units.log2 - 52) exponent with fine | coarse
  · -- The power is a multiple of the step, so it is itself a number of steps.
    calc
      2 ^ exponent = 2 ^ exponent / 2 ^ (units.log2 - 52) * 2 ^ (units.log2 - 52) :=
        (Nat.div_mul_cancel (Nat.pow_dvd_pow 2 fine)).symm
      _ ≤ units / 2 ^ (units.log2 - 52) * 2 ^ (units.log2 - 52) :=
        Nat.mul_le_mul_right _ (Nat.div_le_div_right above)
  · -- One step already reaches above the power.
    have within : 2 ^ (units.log2 - 52) ≤ units :=
      le_trans (Nat.pow_le_pow_right (by decide) (Nat.sub_le _ _))
        (Nat.log2_self_le positive.ne')
    have once : 1 ≤ units / 2 ^ (units.log2 - 52) :=
      (Nat.one_le_div_iff (Nat.two_pow_pos _)).mpr within
    calc
      2 ^ exponent ≤ 2 ^ (units.log2 - 52) := Nat.pow_le_pow_right (by decide) coarse
      _ = 1 * 2 ^ (units.log2 - 52) := (Nat.one_mul _).symm
      _ ≤ units / 2 ^ (units.log2 - 52) * 2 ^ (units.log2 - 52) :=
        Nat.mul_le_mul_right _ once

/-- A natural number is in the safe range exactly when its nearest number is. -/
theorem isSafeInteger_ofNat_iff {n : Nat} :
    (ofNat n).isSafeInteger = true ↔ n ≤ largestSafe := by
  constructor
  · intro safe
    by_contra large
    rcases exists_scale_mul_eq with ⟨exponent, power⟩
    have above : 2 ^ exponent ≤ scale * n := by
      rw [← power]
      exact Nat.mul_le_mul_left _ (by simp only [largestSafe] at large; omega)
    simp only [ofNat, ofQuotient] at safe
    split at safe
    · rcases multiple_of_isSafeInteger safe with ⟨rounded, small, equal⟩
      have crossed : scale * 2 ^ 53 ≤ scale * rounded := by
        rw [power, ← equal]
        exact two_pow_le_roundUnits above
      have less : 2 ^ 53 ≤ rounded := Nat.le_of_mul_le_mul_left crossed scale_pos
      simp only [largestSafe] at small
      omega
    · simp [isSafeInteger, toInt?, signedUnits?] at safe
  · intro small
    have count := isCount_ofNat small
    simp only [isCount, Bool.and_eq_true] at count
    exact count.1

end ConvergentStore.Binary64
