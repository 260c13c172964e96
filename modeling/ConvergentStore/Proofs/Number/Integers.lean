import ConvergentStore.Proofs.Number.Order
import ConvergentStore.Proofs.Number.Rounding

/-!
# Sums of integers

A sum of integers is an integer, however it is rounded, and it is the exact sum
as far as that is at most `2 ^ 53` in absolute value (`toInt?_add`). A sum that is
larger stays at least as large as `2 ^ 53` (`toInt?_add_large`).
-/

namespace ConvergentStore

-- Powers of natural numbers are the same under every import.
attribute [local instance(high)] instPowNat

namespace Binary64

/-! ## Integers -/

theorem scale_ne_zero : (scale : Int) ≠ 0 := by
  exact_mod_cast scale_pos.ne'

/-- An integer has so many units, with its sign. -/
theorem toInt?_eq_some_iff {x : Binary64} {n : Int} :
    x.toInt? = some n ↔ x.signedUnits? = some ((scale : Int) * n) := by
  unfold toInt?
  cases units : x.signedUnits? with
  | none => simp
  | some units =>
      simp only [Option.ite_none_right_eq_some, Option.some.injEq]
      constructor
      · rintro ⟨divides, rfl⟩
        exact (Int.mul_ediv_cancel' (Int.dvd_of_emod_eq_zero divides)).symm
      · rintro rfl
        exact ⟨Int.mul_emod_right _ _, Int.mul_ediv_cancel_left _ scale_ne_zero⟩

/-- A safe integer is less than `2 ^ 53` in absolute value. -/
theorem isSafeInteger_iff {x : Binary64} :
    x.isSafeInteger = true ↔ ∃ n, x.toInt? = some n ∧ -2 ^ 53 < n ∧ n < 2 ^ 53 := by
  unfold isSafeInteger
  cases x.toInt? with
  | none => simp
  | some n =>
      dsimp only
      rw [decide_eq_true_eq]
      simp only [Option.some.injEq, exists_eq_left', largestSafe]
      omega

theorem toInt?_of_isCount {x : Binary64} (count : x.isCount = true) :
    x.toInt? = some (x.toNat : Int) :=
  toInt?_of_equals_ofNat ((toNat_le_of_isCount count).trans largestSafe_le)
    (equals_ofNat_toNat count)

theorem toInt?_zero : (0 : Binary64).toInt? = some 0 :=
  toInt?_ofNat (by decide)

/-- A number that has units stands where they say. -/
theorem place_of_signedUnits? {x : Binary64} {units : Int} (held : x.signedUnits? = some units) :
    x.isNaN = false ∧ x.place = units := by
  cases x with
  | nan => cases held
  | infinity negative => cases held
  | finite negative magnitude fits =>
      cases negative <;>
        · cases held
          exact ⟨rfl, rfl⟩

section

variable {x y : Binary64} {n m : Int} (left : x.toInt? = some n)

include left

theorem isNaN_of_toInt? : x.isNaN = false :=
  (place_of_signedUnits? (toInt?_eq_some_iff.mp left)).1

theorem place_of_toInt? : x.place = (scale : Int) * n :=
  (place_of_signedUnits? (toInt?_eq_some_iff.mp left)).2

theorem toInt?_neg : x.neg.toInt? = some (-n) := by
  have units := toInt?_eq_some_iff.mp left
  rw [toInt?_eq_some_iff, Int.mul_neg]
  cases x with
  | nan => cases units
  | infinity negative => cases units
  | finite negative magnitude fits =>
      cases negative with
      | false =>
          simp only [signedUnits?, Option.some.injEq] at units
          simp [neg, signedUnits?, units]
      | true =>
          simp only [signedUnits?, Option.some.injEq] at units
          simp [neg, signedUnits?, ← units]

theorem le_self_of_toInt? : x.le x = true :=
  le_iff.mpr ⟨isNaN_of_toInt? left, isNaN_of_toInt? left, Int.le_refl _⟩

variable (right : y.toInt? = some m)

include right

/-- Integers are compared as such. -/
theorem le_iff_of_toInt? : x.le y = true ↔ n ≤ m := by
  have positive : (0 : Int) < scale := by exact_mod_cast scale_pos
  rw [le_iff, place_of_toInt? left, place_of_toInt? right, Int.mul_le_mul_left positive]
  simp only [isNaN_of_toInt? left, isNaN_of_toInt? right, true_and]

theorem lt_iff_of_toInt? : x.lt y = true ↔ n < m := by
  have positive : (0 : Int) < scale := by exact_mod_cast scale_pos
  rw [lt_iff, place_of_toInt? left, place_of_toInt? right, Int.mul_lt_mul_left positive]
  simp only [isNaN_of_toInt? left, isNaN_of_toInt? right, true_and]

/-- A sum of integers is the number nearest to the exact sum. -/
theorem add_eq_of_toInt? :
    ∃ sign, x + y = ofQuotient sign (scale * (n + m).natAbs) 1 ∧
      (n + m ≠ 0 → sign = decide (n + m < 0)) := by
  have leftUnits := toInt?_eq_some_iff.mp left
  have rightUnits := toInt?_eq_some_iff.mp right
  have positive : (0 : Int) < scale := by exact_mod_cast scale_pos
  cases x with
  | nan => cases leftUnits
  | infinity negative => cases leftUnits
  | finite leftSign leftMagnitude leftFits =>
      cases y with
      | nan => cases rightUnits
      | infinity negative => cases rightUnits
      | finite rightSign rightMagnitude rightFits =>
          have sum : (if leftSign then -(leftMagnitude : Int) else leftMagnitude) +
              (if rightSign then -(rightMagnitude : Int) else rightMagnitude) =
                (scale : Int) * (n + m) := by
            rw [Int.mul_add]
            cases leftSign <;> cases rightSign <;>
              · simp only [signedUnits?, Option.some.injEq] at leftUnits rightUnits
                simp [leftUnits, rightUnits]
          have magnitude : ((scale : Int) * (n + m)).natAbs = scale * (n + m).natAbs := by
            rw [Int.natAbs_mul, Int.natAbs_natCast]
          have below : (scale : Int) * (n + m) < 0 ↔ n + m < 0 :=
            ⟨fun less => by
              by_contra above
              exact absurd (Int.mul_nonneg positive.le (not_lt.mp above)) (not_le.mpr less),
              fun less => Int.mul_neg_of_pos_of_neg positive less⟩
          refine ⟨if n + m = 0 then leftSign && rightSign else decide (n + m < 0), ?_, ?_⟩
          · show add _ _ = _
            simp only [add, sum, magnitude, below, Int.mul_eq_zero, scale_ne_zero, false_or]
          · intro some
            rw [if_neg some]

end

/-- A positive integer has one form. -/
theorem eq_ofNat_of_toInt?
    {x : Binary64}
    {n : Nat}
    (whole : x.toInt? = some (n : Int))
    (positive : 0 < n)
    (bounded : n ≤ 2 ^ 53) :
    x = ofNat n := by
  have units := toInt?_eq_some_iff.mp whole
  have magnitude : 0 < scale * n := Nat.mul_pos scale_pos positive
  rw [ofNat_eq_finite bounded]
  rw [← Int.natCast_mul] at units
  cases x with
  | nan => cases units
  | infinity negative => cases units
  | finite negative magnitude fits =>
      cases negative with
      | true =>
          simp only [signedUnits?, Option.some.injEq] at units
          omega
      | false =>
          simp only [signedUnits?, Option.some.injEq, Int.natCast_inj] at units
          subst units
          rfl

theorem le_self_of_isSafeInteger {x : Binary64} (safe : x.isSafeInteger = true) :
    x.le x = true := by
  rcases isSafeInteger_iff.mp safe with ⟨n, whole, _⟩
  exact le_self_of_toInt? whole

/-! ## Rounding integers -/

theorem exists_scale_eq : ∃ exponent : Nat, scale = 2 ^ exponent := by
  unfold scale
  exact ⟨_, rfl⟩

/-- An integer is rounded to an integer. -/
theorem scale_dvd_roundUnits (n : Nat) : scale ∣ roundUnits (scale * n) 1 := by
  rcases Nat.le_total n (2 ^ 53) with small | large
  · rw [roundUnits_of_fits (fits_scale_mul small)]
    exact Nat.dvd_mul_right _ _
  · -- So large an integer is measured in steps of at least one.
    rcases exists_scale_eq with ⟨exponent, power⟩
    have leading : exponent + 53 ≤ (scale * n).log2 := by
      rw [Nat.le_log2 (Nat.mul_ne_zero scale_pos.ne' (by omega)), power, Nat.pow_add]
      exact Nat.mul_le_mul_left _ large
    have steps : scale ∣ 2 ^ ((scale * n).log2 - 52) := by
      rw [power]
      rw [power] at leading
      exact Nat.pow_dvd_pow 2 (by omega)
    rw [roundUnits, Nat.div_one]
    exact steps.trans (Nat.dvd_mul_left _ _)

/-- Rounding at most doubles. -/
theorem roundUnits_le (units : Nat) : roundUnits units 1 ≤ 2 * units := by
  rcases Nat.eq_zero_or_pos units with rfl | positive
  · decide
  · have most := nearest_le units (2 ^ (units.log2 - 52))
    have step : 2 ^ (units.log2 - 52) ≤ units :=
      (Nat.pow_le_pow_right (by decide) (Nat.sub_le _ _)).trans
        (Nat.log2_self_le positive.ne')
    rw [roundUnits, Nat.div_one, Nat.one_mul]
    calc
      nearest units (2 ^ (units.log2 - 52)) * 2 ^ (units.log2 - 52) ≤
          (units / 2 ^ (units.log2 - 52) + 1) * 2 ^ (units.log2 - 52) :=
        Nat.mul_le_mul_right _ most
      _ = units / 2 ^ (units.log2 - 52) * 2 ^ (units.log2 - 52) + 2 ^ (units.log2 - 52) :=
        Nat.succ_mul _ _
      _ ≤ units + units := Nat.add_le_add (Nat.div_mul_le_self _ _) step
      _ = 2 * units := (Nat.two_mul units).symm

theorem toInt?_finite {negative : Bool} {n : Nat} (fits : Fits (scale * n)) :
    (finite negative (scale * n) fits).toInt? = some (if negative then -(n : Int) else n) := by
  rw [toInt?_eq_some_iff]
  cases negative <;> simp [signedUnits?]

/-- An integer that fits the format is reached without rounding. -/
theorem toInt?_ofQuotient
    {sign : Bool}
    {n : Int}
    (fits : Fits (scale * n.natAbs))
    (signed : n ≠ 0 → sign = decide (n < 0)) :
    (ofQuotient sign (scale * n.natAbs) 1).toInt? = some n := by
  rw [ofQuotient_of_fits fits, toInt?_finite]
  by_cases zero : n = 0
  · simp [zero]
  · rw [signed zero]
    simp only [decide_eq_true_eq]
    split <;> congr 1 <;> omega

/-! ## Exact integers -/

/-- An integer is exact if there is a number of the format that is this integer. -/
def Exact (n : Int) : Prop :=
  ∃ x : Binary64, x.toInt? = some n

theorem Exact.fits {n : Int} (exact : Exact n) : Fits (scale * n.natAbs) := by
  rcases exact with ⟨x, whole⟩
  have units := toInt?_eq_some_iff.mp whole
  cases x with
  | nan => cases units
  | infinity negative => cases units
  | finite negative magnitude fits =>
      have same : magnitude = scale * n.natAbs := by
        cases negative <;>
          · simp only [signedUnits?, Option.some.injEq] at units
            simpa [Int.natAbs_mul] using congrArg Int.natAbs units
      exact same ▸ fits

/-- Integers up to `2 ^ 53` in absolute value are exact. -/
theorem exact_of_natAbs_le {n : Int} (small : n.natAbs ≤ 2 ^ 53) : Exact n :=
  ⟨ofInt n, toInt?_ofQuotient (fits_scale_mul small) fun _ => rfl⟩

section

variable {x y : Binary64} {n m : Int}
  (left : x.toInt? = some n)
  (right : y.toInt? = some m)

include left right

/-- A sum of integers that is a number of the format is not rounded. -/
theorem toInt?_add_of_exact (exact : Exact (n + m)) : (x + y).toInt? = some (n + m) := by
  rcases add_eq_of_toInt? left right with ⟨sign, sum, signed⟩
  rw [sum, toInt?_ofQuotient exact.fits signed]

/-- A sum of integers that is not large is exact. -/
theorem toInt?_add (small : (n + m).natAbs ≤ 2 ^ 53) : (x + y).toInt? = some (n + m) :=
  toInt?_add_of_exact left right (exact_of_natAbs_le small)

/-- A sum of integers that is large is a large integer. -/
theorem toInt?_add_large (large : 2 ^ 53 ≤ n + m) (limited : n + m ≤ 2 ^ 64) :
    ∃ sum, (x + y).toInt? = some sum ∧ 2 ^ 53 ≤ sum ∧ sum ≤ 2 * (n + m) := by
  rcases add_eq_of_toInt? left right with ⟨sign, sum, signed⟩
  have positive : sign = false := by
    rw [signed (by omega), decide_eq_false_iff_not]
    omega
  obtain ⟨exact, whole⟩ : ∃ exact : Nat, n + m = exact := ⟨(n + m).toNat, by omega⟩
  rw [positive, whole, Int.natAbs_natCast] at sum
  rw [whole] at large limited ⊢
  rcases exists_scale_mul_eq with ⟨exponent, power⟩
  have room : scale * 2 ^ (65 : Nat) < overflow := by
    unfold scale overflow
    exact pow_mul_pow_lt 1074 65 2098 (by decide)
  have upper : roundUnits (scale * exact) 1 ≤ scale * (2 * exact) :=
    (roundUnits_le _).trans_eq (Nat.mul_left_comm _ _ _)
  have lower : scale * 2 ^ (53 : Nat) ≤ roundUnits (scale * exact) 1 := by
    rw [power]
    refine two_pow_le_roundUnits ?_
    rw [← power]
    exact Nat.mul_le_mul_left _ (by omega)
  have bounded : roundUnits (scale * exact) 1 < overflow :=
    (upper.trans (Nat.mul_le_mul_left _ (by omega))).trans_lt room
  rw [sum, ofQuotient, dif_pos bounded]
  generalize fits_roundUnits _ _ bounded = fits
  rcases scale_dvd_roundUnits exact with ⟨rounded, units⟩
  generalize roundUnits (scale * exact) 1 = total at *
  subst units
  have atLeast : 2 ^ (53 : Nat) ≤ rounded := Nat.le_of_mul_le_mul_left lower scale_pos
  have atMost : rounded ≤ 2 * exact := Nat.le_of_mul_le_mul_left upper scale_pos
  exact ⟨rounded, toInt?_finite fits, by exact_mod_cast atLeast, by exact_mod_cast atMost⟩

end

end Binary64

end ConvergentStore
