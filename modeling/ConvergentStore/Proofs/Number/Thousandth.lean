import ConvergentStore.Proofs.Number.Integers
import ConvergentStore.Proofs.Number.Rounding

/-!
# Thousandths

The thousandth of an integer is rounded, but never onto or over an integer that
it lies below or above: next to every integer up to `2 ^ 44` the format has
multiples of a 512th, which are nearer. So rounding a thousandth down after it
was rounded comes to the same as rounding the exact one down
(`toInt?_floor_thousandth`).
-/

namespace ConvergentStore.Binary64

-- Powers of natural numbers are the same under every import.
attribute [local instance(high)] instPowNat

/-! ## Rounding -/

theorem exists_pow_eq_mul (whole first : Nat) (below : first ≤ whole) :
    ∃ second : Nat, 2 ^ whole = 2 ^ first * 2 ^ second :=
  ⟨whole - first, by rw [← Nat.pow_add, Nat.add_sub_cancel' below]⟩

/-- Rounding a thousandth misses it by no more than any multiple of a 512th up to `2 ^ 44`. -/
theorem exists_near_thousandth (millis : Nat) :
    ∃ part, 0 < part ∧ scale = 512 * part ∧
      ∀ n ≤ 2 ^ (53 : Nat),
        distance (scale * millis) 1000 (roundUnits (scale * millis) 1000) ≤
          distance (scale * millis) 1000 (n * part) := by
  have split : ∃ exponent : Nat, scale = 2 ^ (9 : Nat) * 2 ^ exponent := by
    unfold scale
    exact exists_pow_eq_mul 1074 9 (by decide)
  rcases split with ⟨exponent, split⟩
  refine ⟨2 ^ exponent, Nat.two_pow_pos exponent, split, ?_⟩
  intro n bounded
  have below : n * 2 ^ exponent ≤ scale * n := by
    rw [Nat.mul_comm, split]
    exact Nat.mul_le_mul_right _ (Nat.le_mul_of_pos_left _ (by decide))
  exact distance_roundUnits_le (by decide)
    ⟨below.trans_lt (fits_scale_mul bounded).1, leading_dvd n exponent bounded⟩

section

variable {millis second : Nat}

/-- A thousandth below an integer is rounded below it: the 512th before the integer is nearer. -/
theorem roundUnits_thousandth_lt
    (before : millis < 1000 * second)
    (bounded : second ≤ 2 ^ (44 : Nat)) :
    roundUnits (scale * millis) 1000 < scale * second := by
  rcases exists_near_thousandth millis with ⟨part, positive, split, nearest⟩
  have near := nearest (512 * second - 1) (by omega)
  have scaled : part * (millis + 1) ≤ part * (1000 * second) := Nat.mul_le_mul_left _ before
  have candidate : (512 * second - 1) * part = 512 * (part * second) - part := by
    rw [Nat.sub_mul, Nat.one_mul, Nat.mul_assoc, Nat.mul_comm second]
  simp only [distance, candidate, split, Nat.mul_assoc, Nat.mul_add, Nat.mul_one,
    Nat.mul_left_comm part] at near scaled ⊢
  generalize part * millis = exact at near scaled
  generalize part * second = whole at near scaled ⊢
  omega

/-- A thousandth above an integer is rounded above it: the 512th after the integer is nearer. -/
theorem lt_roundUnits_thousandth
    (after : 1000 * second < millis)
    (bounded : second < 2 ^ (44 : Nat)) :
    scale * second < roundUnits (scale * millis) 1000 := by
  rcases exists_near_thousandth millis with ⟨part, positive, split, nearest⟩
  have near := nearest (512 * second + 1) (by omega)
  have scaled : part * (1000 * second + 1) ≤ part * millis := Nat.mul_le_mul_left _ after
  have candidate : (512 * second + 1) * part = 512 * (part * second) + part := by
    rw [Nat.add_mul, Nat.one_mul, Nat.mul_assoc, Nat.mul_comm second]
  simp only [distance, candidate, split, Nat.mul_assoc, Nat.mul_add, Nat.mul_one,
    Nat.mul_left_comm part] at near scaled ⊢
  generalize part * millis = exact at near scaled
  generalize part * second = whole at near scaled ⊢
  omega

/-- The thousandth of a multiple of a thousand is exact. -/
theorem roundUnits_thousand_mul (bounded : second ≤ 2 ^ (53 : Nat)) :
    roundUnits (scale * (1000 * second)) 1000 = scale * second := by
  have reduced : roundUnits (scale * second * 1000) (1 * 1000) = roundUnits (scale * second) 1 :=
    roundUnits_mul (by decide) _ _
  rw [roundUnits_of_fits (fits_scale_mul bounded)] at reduced
  rw [Nat.mul_left_comm, Nat.mul_comm 1000, reduced]

theorem scale_mul_le_roundUnits_thousandth
    (reached : 1000 * second ≤ millis)
    (bounded : second < 2 ^ (44 : Nat)) :
    scale * second ≤ roundUnits (scale * millis) 1000 := by
  rcases Nat.eq_or_lt_of_le reached with rfl | after
  · exact (roundUnits_thousand_mul (by omega)).ge
  · exact (lt_roundUnits_thousandth after bounded).le

theorem roundUnits_thousandth_le
    (within : millis ≤ 1000 * second)
    (bounded : second ≤ 2 ^ (44 : Nat)) :
    roundUnits (scale * millis) 1000 ≤ scale * second := by
  rcases Nat.eq_or_lt_of_le within with rfl | before
  · exact (roundUnits_thousand_mul (by omega)).le
  · exact (roundUnits_thousandth_lt before bounded).le

end

/-! ## Floors -/

/-- A floor in reach is the floor of the units in steps of one. -/
theorem toInt?_floor
    {x : Binary64}
    {units : Int}
    (held : x.signedUnits? = some units)
    (bounded : (units / scale).natAbs ≤ 2 ^ (53 : Nat)) :
    x.floor.toInt? = some (units / scale) := by
  have whole : ∀ n : Int, n.natAbs ≤ 2 ^ (53 : Nat) → (ofInt n).toInt? = some n := fun n small =>
    toInt?_ofQuotient (fits_scale_mul small) fun _ => rfl
  cases x with
  | nan => cases held
  | infinity negative => cases held
  | finite negative magnitude fits =>
      cases negative with
      | false =>
          cases held
          exact whole _ bounded
      | true =>
          cases held
          simp only [floor]
          split
          · next zero => simp [toInt?, signedUnits?, zero]
          · exact whole _ bounded

/-- The thousandth of a natural number, with a sign, when it is rounded. -/
theorem ofQuotient_thousandth
    (negative : Bool)
    {millis : Nat}
    (safe : millis ≤ largestSafe) :
    ∃ fits, ofQuotient negative (scale * millis) 1000 =
      .finite negative (roundUnits (scale * millis) 1000) fits := by
  have within : roundUnits (scale * millis) 1000 ≤ scale * (millis / 1000 + 1) :=
    roundUnits_thousandth_le (by omega) (by unfold largestSafe at safe; omega)
  have room : scale * (millis / 1000 + 1) < overflow :=
    (fits_scale_mul (by unfold largestSafe at safe; omega)).1
  have bounded := within.trans_lt room
  exact ⟨fits_roundUnits _ _ bounded, dif_pos bounded⟩

theorem finite_div_thousand
    (negative : Bool)
    {millis : Nat}
    (fits : Fits (scale * millis)) :
    finite negative (scale * millis) fits / 1000 = ofQuotient negative (scale * millis) 1000 := by
  have thousand : (1000 : Binary64) = .finite false (scale * 1000) (fits_scale_mul (by decide)) :=
    ofNat_eq_finite (by decide)
  have positive : 0 < scale * 1000 := Nat.mul_pos scale_pos (by decide)
  rw [thousand]
  calc
    (finite negative (scale * millis) fits).div (.finite false (scale * 1000) _) =
        ofQuotient negative (scale * (scale * millis)) (scale * 1000) := by
      simp only [div, positive.ne', ↓reduceIte, Bool.bne_false]
    _ = ofQuotient negative (scale * millis) 1000 := by
      refine ofQuotient_congr positive (by decide) ?_
      rw [Nat.mul_comm scale (scale * millis), Nat.mul_assoc]

/-- A rounded thousandth of a safe natural number has the floor of the exact one. -/
theorem roundUnits_thousandth_ediv {millis : Nat} (safe : millis ≤ largestSafe) :
    (roundUnits (scale * millis) 1000 : Int) / scale = (millis : Int) / 1000 := by
  have limit : largestSafe = 2 ^ (53 : Nat) - 1 := rfl
  have lower : scale * (millis / 1000) ≤ roundUnits (scale * millis) 1000 :=
    scale_mul_le_roundUnits_thousandth (by omega) (by omega)
  have upper : roundUnits (scale * millis) 1000 < scale * (millis / 1000 + 1) :=
    roundUnits_thousandth_lt (by omega) (by omega)
  have quotient : roundUnits (scale * millis) 1000 / scale = millis / 1000 :=
    Nat.div_eq_of_lt_le (Nat.mul_comm scale _ ▸ lower) (Nat.mul_comm scale _ ▸ upper)
  exact_mod_cast quotient

/-- So it is below zero, where the floor is the next integer in size. -/
theorem neg_roundUnits_thousandth_ediv {millis : Nat} (safe : millis ≤ largestSafe) :
    -(roundUnits (scale * millis) 1000 : Int) / scale = -(millis : Int) / 1000 := by
  have limit : largestSafe = 2 ^ (53 : Nat) - 1 := rfl
  have positive : (0 : Int) < scale := by exact_mod_cast scale_pos
  have upper : roundUnits (scale * millis) 1000 ≤ scale * ((millis + 999) / 1000) :=
    roundUnits_thousandth_le (by omega) (by omega)
  have ceiling : -(millis : Int) / 1000 = -((millis + 999) / 1000 : Nat) := by omega
  rw [Int.ediv_eq_iff_of_pos positive, ceiling, Int.neg_mul, Int.mul_comm]
  constructor
  · exact_mod_cast Int.neg_le_neg (Int.ofNat_le.mpr upper)
  · cases size : (millis + 999) / 1000 with
    | zero => omega
    | succ seconds =>
        have lower : scale * seconds < roundUnits (scale * millis) 1000 :=
          lt_roundUnits_thousandth (by omega) (by omega)
        rw [Nat.cast_succ, Int.mul_add, Int.mul_one]
        omega

/-- A magnitude in units that are as many as those of an integer is that of the integer. -/
theorem exists_eq_of_units {magnitude : Nat} {n : Int} (units : (magnitude : Int) = scale * n) :
    ∃ size : Nat, n = size ∧ magnitude = scale * size := by
  have nonnegative : 0 ≤ (scale : Int) * n := units ▸ Int.natCast_nonneg magnitude
  rcases Int.eq_ofNat_of_zero_le
    (Int.nonneg_of_mul_nonneg_right nonnegative (Int.natCast_pos.mpr scale_pos)) with ⟨size, rfl⟩
  exact ⟨size, rfl, by exact_mod_cast units⟩

/-- The thousandth of a safe integer, rounded and then rounded down, is rounded down once. -/
theorem toInt?_floor_thousandth
    {x : Binary64}
    {n : Int}
    (whole : x.toInt? = some n)
    (safe : n.natAbs ≤ largestSafe) :
    (x / 1000).floor.toInt? = some (n / 1000) := by
  have limit : largestSafe = 2 ^ (53 : Nat) - 1 := rfl
  have units := toInt?_eq_some_iff.mp whole
  have quotient : ∃ units : Int, (x / 1000).signedUnits? = some units ∧ units / scale = n / 1000 := by
    cases x with
    | nan => cases units
    | infinity negative => cases units
    | finite negative magnitude fits =>
        cases negative with
        | false =>
            rcases exists_eq_of_units (Option.some.inj units) with ⟨size, rfl, rfl⟩
            rw [Int.natAbs_natCast] at safe
            rcases ofQuotient_thousandth false safe with ⟨_, rounded⟩
            rw [finite_div_thousand, rounded]
            exact ⟨_, rfl, roundUnits_thousandth_ediv safe⟩
        | true =>
            have opposite : (magnitude : Int) = scale * -n := by
              rw [Int.mul_neg, ← Option.some.inj units, Int.neg_neg]
            rcases exists_eq_of_units opposite with ⟨size, same, rfl⟩
            obtain rfl : n = -size := by omega
            rw [Int.natAbs_neg, Int.natAbs_natCast] at safe
            rcases ofQuotient_thousandth true safe with ⟨_, rounded⟩
            rw [finite_div_thousand, rounded]
            exact ⟨_, rfl, neg_roundUnits_thousandth_ediv safe⟩
  rcases quotient with ⟨units, held, quotient⟩
  rw [← quotient]
  exact toInt?_floor held (by omega)

end ConvergentStore.Binary64
