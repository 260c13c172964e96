import ConvergentStore.Number.Numeral
import ConvergentStore.Proofs.Number.Counts
import Mathlib.Data.List.TakeWhile

/-!
# Numerals of counts

A count is written with the decimal digits of the natural number that it
denotes, and the strict reader takes these digits back to that number. The
digits have no superfluous zero, which the strict form forbids.
-/

namespace ConvergentStore

namespace Binary64

/-- A count is written with the digits of its natural number. -/
theorem toText_of_isCount {x : Binary64} (xCount : x.isCount = true) :
    x.toText = String.ofList (Nat.toDigits 10 x.toNat) := by
  have bounded := (toNat_le_of_isCount xCount).trans largestSafe_le
  have equal := equals_ofNat_toNat xCount
  generalize x.toNat = n at bounded equal
  rcases (equals_ofNat_iff bounded).mp equal with ⟨negative, fits, rfl, unsigned⟩
  by_cases zero : n = 0
  · subst zero
    simp only [toText, Nat.mul_zero, ↓reduceIte, Nat.toDigits_zero]
  · have positive : negative = false := by
      cases negative with
      | false => rfl
      | true => exact absurd (unsigned rfl) zero
    subst positive
    have filled : ¬ scale * n = 0 := by
      intro none
      rcases Nat.mul_eq_zero.mp none with noScale | noCount
      · exact absurd noScale scale_pos.ne'
      · exact zero noCount
    have whole : scale * n % scale = 0 := Nat.mul_mod_right _ _
    have quotient : scale * n / scale = n := Nat.mul_div_cancel_left _ scale_pos
    simp only [toText, filled, ↓reduceIte, magnitudeDigits, whole, quotient, bounded,
      and_self, Bool.false_eq_true]

/-- Digits without a scale are read as the natural number that they denote. -/
theorem ofDecimal_ofNat {n : Nat} (bounded : n ≤ 2 ^ 53) :
    ofDecimal false n 0 = ofNat n := by
  by_cases zero : n = 0
  · subst zero
    simp [ofDecimal, ofNat]
  · have near : ¬ (310 : Int) ≤ 0 := by decide
    have far : ¬ ((n.log2 : Int) + 1100 ≤ 3 * -0) := by omega
    simp only [ofDecimal, zero, near, far, ↓reduceIte]
    show ofQuotient false (scale * (n * 10 ^ 0)) 1 = ofNat n
    rw [Nat.pow_zero, Nat.mul_one]
    rfl

end Binary64

namespace Numeral

/-- The digits of a positive number do not begin with zero. -/
theorem toDigits_eq_cons {n : Nat} (positive : 0 < n) :
    ∃ first rest, Nat.toDigits 10 n = first :: rest ∧ first ≠ '0' := by
  induction n using Nat.strongRecOn with
  | ind n ih =>
      by_cases small : n < 10
      · refine ⟨n.digitChar, [], Nat.toDigits_of_lt_base small, ?_⟩
        clear ih
        revert positive
        revert n
        decide
      · have less : n / 10 < n := by omega
        rcases ih (n / 10) less (by omega) with ⟨first, rest, digits, notZero⟩
        refine ⟨first, rest ++ [(n % 10).digitChar], ?_, notZero⟩
        rw [Nat.toDigits_of_base_le (by decide) (by omega), digits]
        rfl

/-- The digits of a natural number are a strict numeral. -/
theorem isStrict_toDigits (n : Nat) :
    isStrict ⟨Nat.toDigits 10 n, none, 0⟩ = true := by
  rcases Nat.eq_zero_or_pos n with zero | positive
  · subst zero
    rfl
  · rcases toDigits_eq_cons positive with ⟨first, rest, digits, notZero⟩
    simp only [isStrict, digits]
    split
    · next none => cases none
    · rfl
    · next other =>
        cases other
        simpa using notZero

theorem ofChars?_of_digits {digits : List Char} (all : ∀ c ∈ digits, c.isDigit = true) :
    ofChars? digits = some ⟨digits, none, 0⟩ := by
  have kept : digits.takeWhile Char.isDigit = digits :=
    List.takeWhile_eq_self_iff.mpr all
  have dropped : digits.dropWhile Char.isDigit = [] :=
    List.dropWhile_eq_nil_iff.mpr all
  simp [ofChars?, kept, dropped, exponent?]

/-- The digits of a natural number of the format are read as that number. -/
theorem strict?_toDigits {n : Nat} (bounded : n ≤ 2 ^ 53) :
    strict? (Nat.toDigits 10 n) = some (.ofNat n) := by
  have digits : ∀ c ∈ Nat.toDigits 10 n, c.isDigit = true :=
    fun c member => Nat.isDigit_of_mem_toDigits (by decide) (by decide) member
  have unsigned : ∀ rest, Nat.toDigits 10 n ≠ '-' :: rest := by
    intro rest equal
    have sign := digits '-' (equal ▸ List.mem_cons_self)
    revert sign
    decide
  have value : Numeral.value false ⟨Nat.toDigits 10 n, none, 0⟩ = .ofNat n := by
    simp [Numeral.value, Nat.ofDigitChars_ten_toDigits, Binary64.ofDecimal_ofNat bounded]
  unfold strict?
  split
  next negative chars split =>
    split at split
    · next rest equal => exact absurd equal (unsigned rest)
    · cases split
      rw [ofChars?_of_digits digits]
      simp only [isStrict_toDigits, ↓reduceIte, value]

end Numeral

end ConvergentStore
