import ConvergentStore.Proofs.Number.Counts

/-!
# The order of numbers

Numbers on the line are compared by their places. So the comparisons are those
of a linear order, but for `nan`, which has no place, and for zero, whose two
signs share one.
-/

namespace ConvergentStore.Binary64

variable {x y z : Binary64}

theorem le_iff :
    x.le y = true ↔ x.isNaN = false ∧ y.isNaN = false ∧ x.place ≤ y.place := by
  simp only [le, Bool.and_eq_true, Bool.not_eq_true', decide_eq_true_eq, and_assoc]

theorem lt_iff :
    x.lt y = true ↔ x.isNaN = false ∧ y.isNaN = false ∧ x.place < y.place := by
  simp only [lt, Bool.and_eq_true, Bool.not_eq_true', decide_eq_true_eq, and_assoc]

theorem equals_iff :
    x.equals y = true ↔ x.isNaN = false ∧ y.isNaN = false ∧ x.place = y.place := by
  simp only [equals, Bool.and_eq_true, Bool.not_eq_true', beq_iff_eq, and_assoc]

theorem equals_self_iff : x.equals x = true ↔ x.isNaN = false := by
  simp only [equals_iff, and_true, and_self]

/-- Searching finds what is equal, and `nan` by itself. -/
theorem sameValue_iff :
    x.sameValue y = true ↔ (x.isNaN = true ∧ y.isNaN = true) ∨ x.equals y = true := by
  simp only [sameValue, Bool.or_eq_true, Bool.and_eq_true]

theorem le_self_of_isCount (count : x.isCount = true) : x.le x = true :=
  le_iff.mpr ⟨isNaN_of_isCount count, isNaN_of_isCount count, Int.le_refl _⟩

theorem le_trans (first : x.le y = true) (second : y.le z = true) : x.le z = true := by
  rw [le_iff] at first second ⊢
  exact ⟨first.1, second.2.1, Int.le_trans first.2.2 second.2.2⟩

theorem le_of_lt (less : x.lt y = true) : x.le y = true := by
  rw [lt_iff] at less
  exact le_iff.mpr ⟨less.1, less.2.1, Int.le_of_lt less.2.2⟩

theorem le_of_equals (equal : x.equals y = true) : x.le y = true := by
  rw [equals_iff] at equal
  exact le_iff.mpr ⟨equal.1, equal.2.1, Int.le_of_eq equal.2.2⟩

theorem not_lt_of_le (notMore : x.le y = true) : ¬ y.lt x = true := by
  rw [le_iff] at notMore
  rw [lt_iff]
  exact fun less => Int.not_lt.mpr notMore.2.2 less.2.2

theorem not_equals_of_lt (less : x.lt y = true) : ¬ x.equals y = true := by
  rw [lt_iff] at less
  rw [equals_iff]
  exact fun equal => Int.ne_of_lt less.2.2 equal.2.2

/-- A number between two equal ones equals both. -/
theorem equals_of_between
    (first : x.le y = true)
    (second : y.le z = true)
    (ends : x.equals z = true) :
    x.equals y = true ∧ y.equals z = true := by
  rw [le_iff] at first second
  rw [equals_iff] at ends
  simp only [equals_iff]
  exact ⟨⟨first.1, first.2.1, by omega⟩, second.1, second.2.1, by omega⟩

/-- Counts are compared as the natural numbers that they denote. -/
theorem le_iff_toNat_le (xCount : x.isCount = true) (yCount : y.isCount = true) :
    x.le y = true ↔ x.toNat ≤ y.toNat := by
  have positive : (0 : Int) < scale := by exact_mod_cast scale_pos
  rw [le_iff, place_of_isCount xCount, place_of_isCount yCount, Int.mul_le_mul_left positive]
  simp only [isNaN_of_isCount xCount, isNaN_of_isCount yCount, true_and]
  exact Int.ofNat_le

end ConvergentStore.Binary64
