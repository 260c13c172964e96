import ConvergentStore.Proofs.Number.Order
import Mathlib.Tactic.Ring

/-!
# Whole parts

The whole part of a number and the numbers that are more and less by one, as far
as natural numbers up to `2 ^ 53` reach. What is not positive stays so when one
is taken away, and has no natural number in it.
-/

namespace ConvergentStore.Binary64

/-! ## Numbers that are not positive -/

theorem place_ofQuotient_true_le (numerator denominator : Nat) :
    (ofQuotient true numerator denominator).isNaN = false ∧
      (ofQuotient true numerator denominator).place ≤ 0 := by
  simp only [ofQuotient]
  split
  · exact ⟨rfl, by simp [place]⟩
  · exact ⟨rfl, by simp [place]⟩

theorem place_finite (negative : Bool) (units : Nat) (fits : Fits units) :
    (finite negative units fits).place = if negative then -(units : Int) else units := by
  cases negative <;> rfl

theorem sub_eq (x y : Binary64) : x - y = x.add y.neg :=
  rfl

theorem one_eq_finite :
    (1 : Binary64) = .finite false (scale * 1) (fits_scale_mul (by decide)) :=
  ofNat_eq_finite (by decide)

theorem infinity_of_place_le_zero {negative : Bool} (below : (infinity negative).place ≤ 0) :
    negative = true := by
  have positive : 0 < overflow :=
    Nat.lt_of_le_of_lt (Nat.zero_le _) (fits_scale_mul (Nat.zero_le (2 ^ 53))).1
  cases negative with
  | true => rfl
  | false =>
      simp only [place] at below
      omega

theorem toNat_of_place_le_zero {x : Binary64} (below : x.place ≤ 0) : x.toNat = 0 := by
  have positive := scale_pos
  cases x with
  | nan => rfl
  | infinity negative => rfl
  | finite negative units fits =>
      cases negative with
      | true =>
          simp only [toNat, toInt?, signedUnits?]
          split
          · simp only [Option.getD_some, Int.toNat_eq_zero]
            exact Int.ediv_nonpos_of_nonpos_of_neg (by omega) (by omega)
          · rfl
      | false =>
          have none : units = 0 := by simpa [place] using below
          subst none
          simp [toNat, toInt?, signedUnits?]

theorem sub_one_of_place_le_zero
    {x : Binary64}
    (number : x.isNaN = false)
    (below : x.place ≤ 0) :
    (x - 1).isNaN = false ∧ (x - 1).place ≤ 0 := by
  have positive := scale_pos
  rw [one_eq_finite, sub_eq]
  cases x with
  | nan => cases number
  | infinity negative =>
      obtain rfl := infinity_of_place_le_zero below
      exact ⟨rfl, by simp [neg, add, place]⟩
  | finite negative units fits =>
      rw [place_finite] at below
      have sum : (if negative then -(units : Int) else units) + -((scale * 1 : Nat) : Int) < 0 := by
        omega
      simp only [neg, add, Bool.not_false, ↓reduceIte, Int.ne_of_lt sum, sum, decide_true]
      exact place_ofQuotient_true_le _ _

theorem max_zero_of_place_le_zero
    {x : Binary64}
    (number : x.isNaN = false)
    (below : x.place ≤ 0) :
    max 0 x = 0 := by
  have notAbove : ¬ 0 < x.place := not_lt.mpr below
  simp [max, lt, isNaN_zero, number, place_zero, notAbove]

theorem floor_of_place_le_zero
    {x : Binary64}
    (number : x.isNaN = false)
    (below : x.place ≤ 0) :
    x.floor.isNaN = false ∧ x.floor.place ≤ 0 := by
  cases x with
  | nan => cases number
  | infinity negative => exact ⟨number, below⟩
  | finite negative units fits =>
      cases negative with
      | true =>
          simp only [floor]
          split
          · exact ⟨number, below⟩
          · next some =>
              have positive := scale_pos
              have less : -(units : Int) / scale < 0 :=
                Int.ediv_neg_of_neg_of_pos (by omega) (by exact_mod_cast positive)
              simp only [ofInt, less, decide_true]
              exact place_ofQuotient_true_le _ _
      | false =>
          have none : units = 0 := by simpa [place] using below
          subst none
          have zero : (finite false 0 fits).floor = 0 := by
            simp only [floor, ofInt, Int.natCast_zero, Int.zero_ediv]
            rfl
          rw [zero]
          exact ⟨isNaN_zero, place_zero.le⟩

/-! ## Natural numbers -/

/-- The whole part of a positive number up to `2 ^ 53` is a natural number. -/
theorem floor_finite_false
    {units : Nat}
    {fits : Fits units}
    (bounded : units ≤ scale * 2 ^ 53) :
    units / scale ≤ 2 ^ 53 ∧ (finite false units fits).floor = ofNat (units / scale) := by
  constructor
  · exact Nat.div_le_of_le_mul bounded
  · have magnitude : ((units : Int) / scale).natAbs = units / scale := by
      rw [← Int.natCast_ediv, Int.natAbs_natCast]
    have nonnegative : ¬ ((units : Int) / scale < 0) := by
      rw [← Int.natCast_ediv]
      omega
    simp only [floor, ofInt, ofNat, nonnegative, decide_false, magnitude]

theorem floor_ofNat {n : Nat} (bounded : n ≤ 2 ^ 53) : (ofNat n).floor = ofNat n := by
  rw [ofNat_eq_finite bounded, (floor_finite_false (Nat.mul_le_mul_left _ bounded)).2,
    Nat.mul_div_cancel_left _ scale_pos, ofNat_eq_finite bounded]

theorem ofNat_succ_sub_one {n : Nat} (bounded : n + 1 ≤ 2 ^ 53) :
    ofNat (n + 1) - 1 = ofNat n := by
  have difference : ((scale * (n + 1) : Nat) : Int) + -((scale * 1 : Nat) : Int) =
      (scale * n : Nat) := by
    push_cast
    ring
  have unsigned : ¬ ((scale * n : Nat) : Int) < 0 := by omega
  rw [one_eq_finite, ofNat_eq_finite bounded, sub_eq]
  simp only [neg, add, Bool.not_false, Bool.false_eq_true, ↓reduceIte, difference,
    Int.natAbs_natCast, Bool.and_true, unsigned, decide_false, ite_self]
  rfl

theorem ofNat_add_one {n : Nat} (small : n < 2 ^ 53) : ofNat n + 1 = ofNat (n + 1) := by
  have one : (1 : Binary64).isCount = true := isCount_ofNat (by decide)
  have denotes : (1 : Binary64).toNat = 1 := toNat_ofNat (by decide)
  rw [ofNat_add_of_isCount (Nat.le_sub_one_of_lt small) one, denotes]

/-- No natural number from `2 ^ 53` on is rounded below `2 ^ 53`. -/
theorem scale_mul_le_place_ofNat {n : Nat} (large : 2 ^ 53 ≤ n) :
    (scale : Int) * 2 ^ 53 ≤ (ofNat n).place := by
  rcases exists_scale_mul_eq with ⟨exponent, power⟩
  have above : 2 ^ exponent ≤ scale * n := by
    rw [← power]
    exact Nat.mul_le_mul_left _ large
  have crossed := two_pow_le_roundUnits above
  rw [← power] at crossed
  simp only [ofNat, ofQuotient]
  split
  · simp only [place]
    exact_mod_cast crossed
  · have room : scale * 2 ^ 53 < overflow := (fits_scale_mul (le_refl (2 ^ 53))).1
    simp only [place]
    exact_mod_cast room.le

theorem place_ofNat {n : Nat} (bounded : n ≤ 2 ^ 53) :
    (ofNat n).isNaN = false ∧ (ofNat n).place = (scale : Int) * n := by
  rw [ofNat_eq_finite bounded]
  exact ⟨rfl, by simp [place]⟩

theorem max_zero_ofNat {n : Nat} (bounded : n ≤ 2 ^ 53) : max 0 (ofNat n) = ofNat n := by
  rcases place_ofNat bounded with ⟨number, place⟩
  have positive : (0 : Int) < scale := by exact_mod_cast scale_pos
  cases n with
  | zero => exact max_zero_of_place_le_zero isNaN_zero place_zero.le
  | succ n =>
      have above : (0 : Int) < scale * (n + 1 : Nat) := Int.mul_pos positive (by omega)
      simp only [max, lt, isNaN_zero, number, place_zero, place, above, Bool.or_self,
        Bool.not_false, Bool.and_self, Bool.false_eq_true, decide_true, ↓reduceIte]

/-- Natural numbers are rounded in their order, as far as one of them is at most `2 ^ 53`. -/
theorem lt_of_place_ofNat_lt
    {n bound : Nat}
    (bounded : bound ≤ 2 ^ 53)
    (less : (ofNat n).place < (scale : Int) * bound) :
    n < bound := by
  have positive : (0 : Int) < scale := by exact_mod_cast scale_pos
  rcases Nat.lt_or_ge n (2 ^ 53) with small | large
  · rw [(place_ofNat small.le).2, Int.mul_lt_mul_left positive] at less
    exact Int.ofNat_lt.mp less
  · have crossed := (scale_mul_le_place_ofNat large).trans_lt less
    rw [Int.mul_lt_mul_left positive] at crossed
    omega

end ConvergentStore.Binary64
