import ConvergentStore.Json.Token
import ConvergentStore.Proofs.Number.Numerals
import ConvergentStore.Proofs.Text.Quoted

/-!
# Scanning written tokens

What the scanner makes of a text that begins with a written token: the token,
and the tokens of the rest. A mark and a quoted text end by themselves; a word
ends where the rest begins with a character that belongs to no word.
-/

namespace ConvergentStore.Json.Token

theorem scan?_of_first? {c : Char} {rest after : List Char} {token : Token}
    (filled : isBlank c = false) (read : first? c rest = some (token, after)) :
    scan? (c :: rest) = (scan? after).map (token :: ·) := by
  rw [scan?, if_neg (by simp [filled])]
  split
  · next found =>
      rw [read] at found
      cases found
      rfl
  · next found =>
      rw [read] at found
      cases found

theorem isBlank_eq_false_of_mark? {c : Char} {token : Token} (mark : mark? c = some token) :
    isBlank c = false := by
  cases blank : isBlank c with
  | false => rfl
  | true =>
      simp only [isBlank, Bool.or_eq_true, beq_iff_eq] at blank
      rcases blank with ((rfl | rfl) | rfl) | rfl <;> simp [mark?] at mark

/-- A mark is scanned as its token. -/
theorem scan?_mark {c : Char} {token : Token} (mark : mark? c = some token)
    (rest : List Char) :
    scan? (c :: rest) = (scan? rest).map (token :: ·) := by
  have notQuote : c ≠ '"' := by
    rintro rfl
    simp [mark?] at mark
  refine scan?_of_first? (isBlank_eq_false_of_mark? mark) ?_
  simp only [first?, notQuote, ↓reduceIte, mark]

/-- A quoted text is scanned as the text. -/
theorem scan?_quoted (text rest : List Char) :
    scan? (Text.Quoted.encode text ++ rest) =
      (scan? rest).map (.text (String.ofList text) :: ·) := by
  have split : Text.Quoted.encode text ++ rest =
      '"' :: (text.flatMap Text.Quoted.escape ++ '"' :: rest) := by
    simp [Text.Quoted.encode]
  rw [split]
  refine scan?_of_first? (by decide) ?_
  simp only [first?, ↓reduceIte, Text.Quoted.decode?_flatMap_escape, Option.map_some]

/-! ## Words -/

/-- A text that cannot go on with a word that stands before it. -/
def EndsWord (rest : List Char) : Prop :=
  ∀ c ∈ rest.head?, isWordChar c = false

theorem takeWhile_append_of_endsWord {word rest : List Char}
    (all : ∀ c ∈ word, isWordChar c = true) (ends : EndsWord rest) :
    (word ++ rest).takeWhile isWordChar = word ∧
      (word ++ rest).dropWhile isWordChar = rest := by
  induction word with
  | nil =>
      cases rest with
      | nil => exact ⟨rfl, rfl⟩
      | cons c rest =>
          have stop : isWordChar c = false := ends c rfl
          simp [stop]
  | cons c word ih =>
      have first : isWordChar c = true := all c List.mem_cons_self
      rcases ih fun later member => all later (List.mem_cons_of_mem _ member) with ⟨taken, dropped⟩
      simp only [List.cons_append, List.takeWhile_cons, List.dropWhile_cons, first,
        ↓reduceIte, taken, dropped, and_self]

/-- A word is scanned as its token, up to the first character that belongs to no word. -/
theorem scan?_word {c : Char} {word rest : List Char} {token : Token}
    (all : ∀ d ∈ c :: word, isWordChar d = true) (ends : EndsWord rest)
    (known : ofWord? (c :: word) = some token) :
    scan? (c :: word ++ rest) = (scan? rest).map (token :: ·) := by
  have first : isWordChar c = true := all c List.mem_cons_self
  simp only [isWordChar, Bool.and_eq_true, Bool.not_eq_true', Option.isNone_iff_eq_none,
    bne_iff_ne] at first
  rcases first with ⟨⟨filled, noMark⟩, notQuote⟩
  obtain ⟨taken, dropped⟩ := takeWhile_append_of_endsWord
    (fun d member => all d (List.mem_cons_of_mem _ member)) ends
  rw [List.cons_append]
  refine scan?_of_first? filled ?_
  simp only [first?, notQuote, ↓reduceIte, noMark, taken, dropped, known, Option.map_some]

theorem isWordChar_of_isDigit {c : Char} (digit : c.isDigit = true) : isWordChar c = true := by
  have all : ∀ code < 58, 48 ≤ code → isWordChar (Char.ofNat code) = true := by decide
  simp only [Char.isDigit, Bool.and_eq_true, decide_eq_true_eq] at digit
  have low : 48 ≤ c.toNat := digit.1
  have high : c.toNat ≤ 57 := digit.2
  have word := all c.toNat (by omega) low
  rw [Char.ofNat_toNat] at word
  exact word

theorem ofWord?_toDigits {n : Nat} (bounded : n ≤ 2 ^ 53) :
    ofWord? (Nat.toDigits 10 n) = some (.number (.ofNat n)) := by
  have digits : ∀ c ∈ Nat.toDigits 10 n, c.isDigit = true :=
    fun c member => Nat.isDigit_of_mem_toDigits (by decide) (by decide) member
  have constant : ∀ c rest, c.isDigit = false → Nat.toDigits 10 n ≠ c :: rest := by
    intro c rest letter equal
    have digit := digits c (equal ▸ List.mem_cons_self)
    rw [letter] at digit
    cases digit
  have notNull : Nat.toDigits 10 n ≠ "null".toList := constant 'n' _ (by decide)
  have notTrue : Nat.toDigits 10 n ≠ "true".toList := constant 't' _ (by decide)
  have notFalse : Nat.toDigits 10 n ≠ "false".toList := constant 'f' _ (by decide)
  simp only [ofWord?, notNull, notTrue, notFalse, ↓reduceIte, Numeral.strict?_toDigits bounded,
    Option.map_some]

/-- The digits of a natural number of the format are scanned as that number. -/
theorem scan?_toDigits {n : Nat} {rest : List Char} (bounded : n ≤ 2 ^ 53)
    (ends : EndsWord rest) :
    scan? (Nat.toDigits 10 n ++ rest) = (scan? rest).map (.number (.ofNat n) :: ·) := by
  have all : ∀ c ∈ Nat.toDigits 10 n, isWordChar c = true := fun c member =>
    isWordChar_of_isDigit (Nat.isDigit_of_mem_toDigits (by decide) (by decide) member)
  have known := ofWord?_toDigits bounded
  cases digits : Nat.toDigits 10 n with
  | nil => exact absurd digits Nat.toDigits_ne_nil
  | cons c word =>
      rw [digits] at all known
      exact scan?_word all ends known

end ConvergentStore.Json.Token
