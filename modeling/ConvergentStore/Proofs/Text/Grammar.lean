import ConvergentStore.Proofs.Text.Quoted

/-!
# The grammar of quoted text

What may stand between two quotes, and the text that it denotes: characters
other than the quote, the backslash and the controls stand for themselves, and
a backslash begins an escape. Two escapes may denote the two halves of one
character. An escape that denotes half a character without the other half next
to it denotes no character. A text is well-formed Unicode and has no place for
it; the replacement character stands for it.

`decode?_eq_some_iff` says that the reader accepts exactly what the grammar
allows before a quote. Between the two stands the row of elements that the
reader collects before it joins the halves.
-/

namespace ConvergentStore.Text.Quoted

/-! ## Productions -/

/-- A text begins with an escape that denotes the second half of a character. -/
def OpensLow (chars : List Char) : Prop :=
  ∃ a b c d low rest,
    chars = '\\' :: 'u' :: a :: b :: c :: d :: rest ∧ unit? a b c d = some low ∧ isLow low = true

/-- What may stand between quotes, and the text that it denotes. -/
inductive Spells : List Char → List Char → Prop where
  | nil : Spells [] []
  | plain {c : Char} {own content : List Char} :
      c ≠ '"' → c ≠ '\\' → ¬ c < ' ' →
      Spells own content → Spells (c :: own) (c :: content)
  | letter {letter c : Char} {own content : List Char} :
      letterEscape? letter = some c →
      Spells own content → Spells ('\\' :: letter :: own) (c :: content)
  | unit {a b c d : Char} {code : Nat} {own content : List Char} :
      unit? a b c d = some code → isHigh code = false → isLow code = false →
      Spells own content →
      Spells ('\\' :: 'u' :: a :: b :: c :: d :: own) (characterOf code :: content)
  | pair {a b c d e f g h : Char} {high low : Nat} {own content : List Char} :
      unit? a b c d = some high → isHigh high = true →
      unit? e f g h = some low → isLow low = true →
      Spells own content →
      Spells ('\\' :: 'u' :: a :: b :: c :: d :: '\\' :: 'u' :: e :: f :: g :: h :: own)
        (characterOf (paired high low) :: content)
  | half {a b c d : Char} {code : Nat} {own content : List Char} :
      unit? a b c d = some code → isLow code = true ∨ isHigh code = true ∧ ¬ OpensLow own →
      Spells own content →
      Spells ('\\' :: 'u' :: a :: b :: c :: d :: own) (replacement :: content)

/-- What may stand between quotes, and the elements that it is read as. -/
inductive Forms : List Char → List Element → Prop where
  | nil : Forms [] []
  | plain {c : Char} {own : List Char} {elements : List Element} :
      c ≠ '"' → c ≠ '\\' → ¬ c < ' ' →
      Forms own elements → Forms (c :: own) (.character c :: elements)
  | letter {letter c : Char} {own : List Char} {elements : List Element} :
      letterEscape? letter = some c →
      Forms own elements → Forms ('\\' :: letter :: own) (.character c :: elements)
  | unit {a b c d : Char} {code : Nat} {own : List Char} {elements : List Element} :
      unit? a b c d = some code →
      Forms own elements → Forms ('\\' :: 'u' :: a :: b :: c :: d :: own) (.unit code :: elements)

/-! ## Elements -/

theorem Forms.read
    {own : List Char}
    {elements : List Element}
    (forms : Forms own elements)
    (after : List Char) :
    elements? (own ++ '"' :: after) = some (elements, after) := by
  induction forms with
  | nil => rfl
  | plain notQuote notBackslash notControl _ ih =>
      rw [List.cons_append, elements?_character notQuote notBackslash notControl, ih]
      rfl
  | letter named _ ih =>
      simp only [List.cons_append]
      rw [elements?_letter named, ih]
      rfl
  | unit denoted _ ih =>
      simp only [List.cons_append]
      rw [elements?_unit denoted, ih]
      rfl

theorem forms_of_elements?
    {chars after : List Char}
    {elements : List Element}
    (read : elements? chars = some (elements, after)) :
    ∃ own, chars = own ++ '"' :: after ∧ Forms own elements := by
  fun_induction elements? chars generalizing elements after with
  | case1 => cases read
  | case2 rest =>
      cases read
      exact ⟨[], rfl, .nil⟩
  | case3 a b c d rest code inner tail found denoted ih =>
      cases read
      rcases ih found with ⟨own, rfl, forms⟩
      exact ⟨'\\' :: 'u' :: a :: b :: c :: d :: own, rfl, .unit denoted forms⟩
  | case4 => cases read
  | case5 letter rest _ c inner tail found named ih =>
      cases read
      rcases ih found with ⟨own, rfl, forms⟩
      exact ⟨'\\' :: letter :: own, rfl, .letter named forms⟩
  | case6 => cases read
  | case7 => cases read
  | case8 c rest notQuote _ noLetter notControl inner tail found ih =>
      cases read
      rcases ih found with ⟨own, rfl, forms⟩
      have notBackslash : c ≠ '\\' := by
        intro backslash
        cases own with
        | nil => exact noLetter '"' _ backslash rfl
        | cons letter own => exact noLetter letter _ backslash rfl
      exact ⟨c :: own, rfl, .plain notQuote notBackslash notControl forms⟩
  | case9 => cases read

/-! ## Halves of characters -/

theorem characterOf_of_half {code : Nat} (half : isHigh code = true ∨ isLow code = true) :
    characterOf code = replacement := by
  rw [characterOf, dif_neg]
  simp only [isHigh, isLow, Bool.and_eq_true, decide_eq_true_eq] at half
  simp only [Nat.isValidChar]
  omega

theorem isHigh_eq_false_of_isLow {code : Nat} (low : isLow code = true) :
    isHigh code = false := by
  simp only [isLow, isHigh, Bool.and_eq_true, Bool.and_eq_false_iff, decide_eq_true_eq,
    decide_eq_false_iff_not] at low ⊢
  omega

/-- The first element of a text that begins with a second half is that half. -/
theorem Forms.opensLow
    {own : List Char}
    {elements : List Element}
    (forms : Forms own elements) :
    OpensLow own ↔ ∃ low rest, elements = .unit low :: rest ∧ isLow low = true := by
  constructor
  · rintro ⟨a, b, c, d, low, rest, rfl, denoted, isLow⟩
    cases forms with
    | plain _ notBackslash => exact absurd rfl notBackslash
    | letter named => simp [letterEscape?] at named
    | unit other =>
        cases denoted.symm.trans other
        exact ⟨_, _, rfl, isLow⟩
  · rintro ⟨low, rest, rfl, isLow⟩
    cases forms with
    | unit denoted => exact ⟨_, _, _, _, _, _, rfl, denoted, isLow⟩

/-- A code unit that joins no other stands for its character, or for the replacement. -/
theorem assemble_single
    {code : Nat}
    {elements : List Element}
    (single : ¬ (isHigh code = true ∧ ∃ low rest, elements = .unit low :: rest ∧ isLow low = true)) :
    assemble (.unit code :: elements) = characterOf code :: assemble elements := by
  cases high : isHigh code with
  | false => exact assemble_unit high elements
  | true =>
      cases elements with
      | nil => simp [assemble]
      | cons next rest =>
          cases next with
          | character c => simp [assemble]
          | unit low =>
              cases second : isLow low with
              | false => simp [assemble, second]
              | true => exact absurd ⟨high, low, rest, rfl, second⟩ single

/-! ## Texts -/

theorem Spells.forms
    {own content : List Char}
    (spelled : Spells own content) :
    ∃ elements, Forms own elements ∧ assemble elements = content := by
  induction spelled with
  | nil => exact ⟨[], .nil, by simp [assemble]⟩
  | plain notQuote notBackslash notControl _ ih =>
      rcases ih with ⟨elements, forms, rfl⟩
      exact ⟨_, .plain notQuote notBackslash notControl forms, by simp [assemble]⟩
  | letter named _ ih =>
      rcases ih with ⟨elements, forms, rfl⟩
      exact ⟨_, .letter named forms, by simp [assemble]⟩
  | unit denoted notHigh _ _ ih =>
      rcases ih with ⟨elements, forms, rfl⟩
      exact ⟨_, .unit denoted forms, assemble_unit notHigh elements⟩
  | pair first isHigh second isLow _ ih =>
      rcases ih with ⟨elements, forms, rfl⟩
      exact ⟨_, .unit first (.unit second forms), by simp [assemble, isHigh, isLow]⟩
  | half denoted lone _ ih =>
      rcases ih with ⟨elements, forms, rfl⟩
      refine ⟨_, .unit denoted forms, ?_⟩
      rcases lone with low | ⟨high, alone⟩
      · rw [assemble_unit (isHigh_eq_false_of_isLow low), characterOf_of_half (.inr low)]
      · rw [assemble_single fun joins => alone (forms.opensLow.mpr joins.2),
          characterOf_of_half (.inl high)]

/-- A text whose first escape is not joined with another one. -/
theorem spells_single
    {a b c d : Char}
    {code : Nat}
    {own content : List Char}
    (denoted : unit? a b c d = some code)
    (single : ¬ (isHigh code = true ∧ OpensLow own))
    (spelled : Spells own content) :
    Spells ('\\' :: 'u' :: a :: b :: c :: d :: own) (characterOf code :: content) := by
  cases high : isHigh code with
  | true =>
      rw [characterOf_of_half (.inl high)]
      exact .half denoted (.inr ⟨high, fun opens => single ⟨high, opens⟩⟩) spelled
  | false =>
      cases low : isLow code with
      | true =>
          rw [characterOf_of_half (.inr low)]
          exact .half denoted (.inl low) spelled
      | false => exact .unit denoted high low spelled

theorem Forms.spells
    {own : List Char}
    {elements : List Element}
    (forms : Forms own elements) :
    Spells own (assemble elements) := by
  fun_induction assemble elements generalizing own with
  | case1 =>
      cases forms
      exact .nil
  | case2 high low rest joined ih =>
      cases forms with
      | unit first forms =>
          cases forms with
          | unit second forms =>
              simp only [Bool.and_eq_true] at joined
              exact .pair first joined.1 second joined.2 (ih forms)
  | case3 high low rest apart ih =>
      cases forms with
      | unit denoted forms =>
          refine spells_single denoted ?_ (ih forms)
          rintro ⟨isHigh, opens⟩
          rcases forms.opensLow.mp opens with ⟨_, _, ⟨⟩, isLow⟩
          simp [isHigh, isLow] at apart
  | case4 code rest last ih =>
      cases forms with
      | unit denoted forms =>
          refine spells_single denoted ?_ (ih forms)
          rintro ⟨_, opens⟩
          rcases forms.opensLow.mp opens with ⟨low, later, rfl, _⟩
          exact last low later rfl
  | case5 c rest ih =>
      cases forms with
      | plain notQuote notBackslash notControl forms =>
          exact .plain notQuote notBackslash notControl (ih forms)
      | letter named forms => exact .letter named (ih forms)

/-- The reader accepts, up to a quote, what the grammar allows between quotes. -/
theorem decode?_eq_some_iff {chars content after : List Char} :
    decode? chars = some (content, after) ↔
      ∃ own, chars = own ++ '"' :: after ∧ Spells own content := by
  simp only [decode?, Option.map_eq_some_iff, Prod.mk.injEq, Prod.exists]
  constructor
  · rintro ⟨elements, _, read, rfl, rfl⟩
    rcases forms_of_elements? read with ⟨own, rfl, forms⟩
    exact ⟨own, rfl, forms.spells⟩
  · rintro ⟨own, rfl, spelled⟩
    rcases spelled.forms with ⟨elements, forms, rfl⟩
    exact ⟨elements, after, forms.read after, rfl, rfl⟩

end ConvergentStore.Text.Quoted
