import ConvergentStore.Text.Separator

/-!
# Cutting at a separator

A text is cut where it was joined, when the part before the separator has
nothing of the separator's first character in it. And it is cut at all exactly
when the separator is a stretch of it (`contains_iff_infix`), which can be told
part by part.
-/

namespace ConvergentStore.Text

theorem afterSeparator?_of_ne {first c : Char} (apart : c ≠ first) (others rest : List Char) :
    afterSeparator? (first :: others) (c :: rest) = none := by
  simp [afterSeparator?, apart.symm]

theorem afterSeparator?_append (separator rest : List Char) :
    afterSeparator? separator (separator ++ rest) = some rest := by
  have stands : separator.isPrefixOf (separator ++ rest) = true :=
    List.isPrefixOf_iff_prefix.mpr (List.prefix_append _ _)
  simp [afterSeparator?, stands]

/-- A text without the first character of a separator is not cut. -/
theorem cut_of_not_mem {first : Char} {others text : List Char} (absent : first ∉ text) :
    cut (first :: others) text = (text, none) := by
  induction text with
  | nil => rfl
  | cons c text ih =>
      have apart : c ≠ first := fun same => absent (same ▸ List.mem_cons_self)
      have later := ih fun member => absent (List.mem_cons_of_mem _ member)
      simp only [cut, afterSeparator?_of_ne apart, later]

/-- A text is cut at the separator behind a part without the separator's first character. -/
theorem cut_append {first : Char} {others before : List Char} (absent : first ∉ before)
    (after : List Char) :
    cut (first :: others) (before ++ first :: others ++ after) = (before, some after) := by
  induction before with
  | nil =>
      have stands := afterSeparator?_append (first :: others) after
      rw [List.cons_append] at stands
      simp only [List.nil_append, List.cons_append, cut, stands]
  | cons c before ih =>
      have apart : c ≠ first := fun same => absent (same ▸ List.mem_cons_self)
      have later := ih fun member => absent (List.mem_cons_of_mem _ member)
      simp only [List.cons_append, cut, afterSeparator?_of_ne apart] at later ⊢
      rw [later]

/-! ## Stretches of a text -/

/-- A separator stands in a text exactly when it is a stretch of the text. -/
theorem contains_iff_infix {separator text : List Char} :
    contains separator text = true ↔ separator <:+: text := by
  rw [contains]
  induction text with
  | nil => cases separator <;> simp [cut, afterSeparator?]
  | cons c text ih =>
      rw [List.infix_cons_iff, ← ih, ← List.isPrefixOf_iff_prefix]
      cases stands : separator.isPrefixOf (c :: text) <;> simp [cut, afterSeparator?, stands]

/-- A part without the separator's first character does not matter to what stands behind it. -/
theorem infix_append_iff_of_not_mem {first : Char} {others before : List Char}
    (absent : first ∉ before) (after : List Char) :
    first :: others <:+: before ++ after ↔ first :: others <:+: after := by
  induction before with
  | nil => rfl
  | cons c before ih =>
      have apart : first ≠ c := fun same => absent (same ▸ List.mem_cons_self)
      have later := ih fun member => absent (List.mem_cons_of_mem _ member)
      rw [List.cons_append, List.infix_cons_iff, later, List.cons_prefix_cons]
      simp [apart]

/-- What begins a text and is without a certain character ends before it. -/
theorem prefix_append_cons_iff {opening : List Char} {c : Char} (foreign : c ∉ opening)
    (before after : List Char) :
    opening <+: before ++ c :: after ↔ opening <+: before := by
  induction before generalizing opening with
  | nil =>
      cases opening with
      | nil => simp
      | cons first others =>
          have apart : first ≠ c := fun same => foreign (same ▸ List.mem_cons_self)
          simp [apart]
  | cons d before ih =>
      cases opening with
      | nil => simp
      | cons first others =>
          have later := ih fun member => foreign (List.mem_cons_of_mem _ member)
          rw [List.cons_append, List.cons_prefix_cons, List.cons_prefix_cons, later]

/-- A character that is not in a separator parts the text for it. -/
theorem infix_append_cons_iff {separator : List Char} {c : Char} (foreign : c ∉ separator)
    (before after : List Char) :
    separator <:+: before ++ c :: after ↔ separator <:+: before ∨ separator <:+: after := by
  induction before with
  | nil =>
      have start := prefix_append_cons_iff foreign [] after
      rw [List.nil_append] at start ⊢
      rw [List.infix_cons_iff, start, List.prefix_nil, List.infix_nil]
  | cons d before ih =>
      have start := prefix_append_cons_iff foreign (d :: before) after
      rw [List.cons_append] at start ⊢
      rw [List.infix_cons_iff, List.infix_cons_iff, ih, start, or_assoc]

end ConvergentStore.Text
