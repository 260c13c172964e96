import ConvergentStore.Text.Separator

/-!
# Abridged texts

A text that announces an explanation can do without it. The announcement is a
phrase with a colon and a blank behind it; an abridged text keeps the phrase
and drops the colon and all that follows. This happens at the first phrase,
wherever it stands, and a text without one is kept whole
(`abridge_eq_self_iff`).
-/

namespace ConvergentStore.Text

/-- What stands between a phrase and the explanation that it announces. -/
def colon : String := ": "

/-- A letter, a digit or a low line. -/
def isWordChar (c : Char) : Bool :=
  c.isAlphanum || c == '_'

/-- The given phrase, if a text begins with its announcement. -/
def phrase? (phrase text : List Char) : Option (List Char) :=
  (afterSeparator? (phrase ++ colon.toList) text).map fun _ => phrase

/-- A phrase with any word in the middle, if a text begins with its announcement. -/
def phraseAround? (opening ending text : List Char) : Option (List Char) :=
  match afterSeparator? opening text with
  | none => none
  | some rest =>
      let word := rest.takeWhile isWordChar
      if word.isEmpty then none
      else
        (phrase? ending (rest.dropWhile isWordChar)).map fun ending =>
          opening ++ word ++ ending

theorem length_phrase?_lt {phrase text found : List Char}
    (announced : phrase? phrase text = some found) : found.length < text.length := by
  simp only [phrase?, afterSeparator?, Option.map_eq_some_iff] at announced
  obtain ⟨_, after, rfl⟩ := announced
  split at after
  · next stands =>
      have within := (List.isPrefixOf_iff_prefix.1 stands).length_le
      rw [List.length_append] at within
      have filled : 0 < colon.toList.length := by decide
      omega
  · cases after

theorem length_phraseAround?_lt {opening ending text found : List Char}
    (announced : phraseAround? opening ending text = some found) :
    found.length < text.length := by
  simp only [phraseAround?] at announced
  cases after : afterSeparator? opening text with
  | none => rw [after] at announced; cases announced
  | some rest =>
      rw [after] at announced
      simp only at announced
      split at announced
      · cases announced
      · obtain ⟨last, closed, rfl⟩ := Option.map_eq_some_iff.1 announced
        have closing := length_phrase?_lt closed
        simp only [afterSeparator?] at after
        split at after
        · next stands =>
            cases after
            have within := (List.isPrefixOf_iff_prefix.1 stands).length_le
            have parts := congrArg List.length
              (List.takeWhile_append_dropWhile (p := isWordChar) (l := text.drop opening.length))
            simp only [List.length_append, List.length_drop] at parts closing ⊢
            omega
        · cases after

/-- A text up to the end of the first phrase that announces an explanation. -/
def abridge (announced? : List Char → Option (List Char)) : List Char → List Char
  | [] => []
  | c :: rest =>
      match announced? (c :: rest) with
      | some phrase => phrase
      | none => c :: abridge announced? rest

/--
A text is kept whole when no phrase is announced in it. Here `announced?` must
find phrases that are shorter than the text, as announcements are.
-/
theorem abridge_eq_self_iff {announced? : List Char → Option (List Char)}
    (shorter : ∀ text phrase, announced? text = some phrase → phrase.length < text.length)
    (text : List Char) :
    abridge announced? text = text ↔
      ∀ rest, rest ≠ [] → rest <:+ text → announced? rest = none := by
  induction text with
  | nil =>
      refine ⟨fun _ rest filled suffix => ?_, fun _ => rfl⟩
      exact absurd (List.suffix_nil.1 suffix) filled
  | cons c text ih =>
      cases found : announced? (c :: text) with
      | some phrase =>
          have less := shorter _ _ found
          constructor
          · intro kept
            simp only [abridge, found] at kept
            rw [kept] at less
            exact absurd less (Nat.lt_irrefl _)
          · intro absent
            have none := absent (c :: text) (List.cons_ne_nil _ _) (List.suffix_refl _)
            rw [found] at none
            cases none
      | none =>
          simp only [abridge, found, List.cons.injEq, true_and, ih]
          constructor
          · intro absent rest filled suffix
            rcases List.suffix_cons_iff.1 suffix with whole | inner
            · rw [whole]; exact found
            · exact absent rest filled inner
          · intro absent rest filled suffix
            exact absent rest filled (suffix.trans (List.suffix_cons _ _))

end ConvergentStore.Text
