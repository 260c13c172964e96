import ConvergentStore.Text.Blank
import Mathlib.Data.List.TakeWhile

/-!
# Blanks around a text

No visible character of ASCII is blank. A text arises from what remains of it
by blanks at its two ends, and a text in which nothing is blank is what remains
when such blanks are put around it.
-/

namespace ConvergentStore.Text

/-- Every character of a row is blank. -/
def Blanks (row : List Char) : Prop :=
  ∀ c ∈ row, isBlank c = true

/-- Blank characters stand outside the visible part of ASCII. -/
theorem toNat_of_isBlank {c : Char} (blank : isBlank c = true) :
    c.toNat ≤ 32 ∨ 160 ≤ c.toNat := by
  simp only [isBlank, blankRanges, List.any_cons, List.any_nil, Bool.or_eq_true, beq_iff_eq,
    Bool.and_eq_true, decide_eq_true_eq, Bool.or_false] at blank
  rcases blank with (rfl | control) | further
  · exact .inl (by decide)
  · omega
  · omega

theorem isBlank_eq_false {c : Char} (lower : 32 < c.toNat) (upper : c.toNat < 160) :
    isBlank c = false := by
  by_contra blank
  rcases toNat_of_isBlank (Bool.not_eq_false _ ▸ blank) with below | above
  · omega
  · omega

theorem isBlank_of_isDigit {c : Char} (digit : c.isDigit = true) : isBlank c = false := by
  simp only [Char.isDigit, Bool.and_eq_true, decide_eq_true_eq] at digit
  rcases digit with ⟨lower, upper⟩
  refine isBlank_eq_false ?_ ?_
  · exact lt_of_lt_of_le (by decide) (UInt32.le_iff_toNat_le.mp lower)
  · exact lt_of_le_of_lt (UInt32.le_iff_toNat_le.mp upper) (by decide)

theorem blanks_takeWhile (chars : List Char) : Blanks (chars.takeWhile isBlank) := by
  intro c member
  exact List.mem_takeWhile_imp member

/-- Blanks before a text are dropped up to its first character. -/
theorem Blanks.dropWhile_append
    {blanks rest : List Char}
    (blank : Blanks blanks)
    (filled : ∀ c ∈ rest.head?, isBlank c = false) :
    (blanks ++ rest).dropWhile isBlank = rest := by
  rw [List.dropWhile_append_of_pos blank]
  cases rest with
  | nil => rfl
  | cons c rest =>
      refine List.dropWhile_cons_of_neg ?_
      rw [filled c rfl]
      exact Bool.false_ne_true

/-- A text is what remains of it, with blanks around that. -/
theorem exists_eq_append_trim (chars : List Char) :
    ∃ before after, chars = before ++ (trim chars ++ after) ∧ Blanks before ∧ Blanks after := by
  refine ⟨chars.takeWhile isBlank,
    ((chars.dropWhile isBlank).reverse.takeWhile isBlank).reverse, ?_, blanks_takeWhile chars, ?_⟩
  · rw [trim, ← List.reverse_append, List.takeWhile_append_dropWhile, List.reverse_reverse,
      List.takeWhile_append_dropWhile]
  · intro c member
    exact blanks_takeWhile _ c (List.mem_reverse.mp member)

/-- Of a text without blanks, with blanks around it, the text remains. -/
theorem trim_append
    {before core after : List Char}
    (first : Blanks before)
    (last : Blanks after)
    (filled : ∀ c ∈ core, isBlank c = false) :
    trim (before ++ (core ++ after)) = core := by
  have fromEnd : (core ++ after).reverse.dropWhile isBlank = core.reverse := by
    rw [List.reverse_append]
    refine Blanks.dropWhile_append (fun c member => last c (List.mem_reverse.mp member)) ?_
    intro c among
    exact filled c (List.mem_reverse.mp (List.mem_of_mem_head? among))
  cases core with
  | nil =>
      have blank : Blanks (before ++ after) := by
        intro c member
        rcases List.mem_append.mp member with among | among
        · exact first c among
        · exact last c among
      rw [trim, List.nil_append, List.dropWhile_eq_nil_iff.mpr blank]
      rfl
  | cons c core =>
      have start : (before ++ (c :: core ++ after)).dropWhile isBlank = c :: core ++ after := by
        refine first.dropWhile_append ?_
        rintro _ ⟨⟩
        exact filled c List.mem_cons_self
      rw [trim, start, fromEnd, List.reverse_reverse]

end ConvergentStore.Text
