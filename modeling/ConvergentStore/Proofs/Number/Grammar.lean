import ConvergentStore.Proofs.Number.Numerals

/-!
# The grammar of numerals

The strict form of a numeral, production by production: perhaps a minus sign,
a whole part without superfluous zeros, perhaps a point and digits, perhaps an
exponent. `strict?_eq_some_iff` says that the strict reader accepts the words of
this grammar and no others, and gives each the number that it denotes.
-/

namespace ConvergentStore.Numeral

/-! ## Productions -/

/-- Every character of a row is a digit. -/
def Digits (row : List Char) : Prop :=
  ∀ c ∈ row, c.isDigit = true

/-- The part before the point: zero by itself, or digits that do not begin with zero. -/
inductive Whole : List Char → Prop where
  | zero : Whole ['0']
  | positive {first : Char} {rest : List Char} :
      first ≠ '0' → Digits (first :: rest) → Whole (first :: rest)

/-- The part from the point on, with the digits that it holds. -/
inductive Fraction : List Char → Option (List Char) → Prop where
  | absent : Fraction [] none
  | present {row : List Char} : row ≠ [] → Digits row → Fraction ('.' :: row) (some row)

/-- The part from the point on, where digits may be missing. -/
inductive LooseFraction : List Char → Option (List Char) → Prop where
  | absent : LooseFraction [] none
  | present {row : List Char} : Digits row → LooseFraction ('.' :: row) (some row)

/-- The part from the exponent's mark on, with the power of ten that it denotes. -/
inductive Exponent : List Char → Int → Prop where
  | absent : Exponent [] 0
  | unsigned {mark : Char} {row : List Char} :
      mark = 'e' ∨ mark = 'E' → row ≠ [] → Digits row →
      Exponent (mark :: row) (Nat.ofDigitChars 10 row 0)
  | plus {mark : Char} {row : List Char} :
      mark = 'e' ∨ mark = 'E' → row ≠ [] → Digits row →
      Exponent (mark :: '+' :: row) (Nat.ofDigitChars 10 row 0)
  | minus {mark : Char} {row : List Char} :
      mark = 'e' ∨ mark = 'E' → row ≠ [] → Digits row →
      Exponent (mark :: '-' :: row) (-(Nat.ofDigitChars 10 row 0 : Int))

/-- An unsigned numeral of the grammar, with its parts. -/
inductive Unsigned : List Char → Numeral → Prop where
  | parts {whole fraction exponent : List Char} {digits : Option (List Char)} {power : Int} :
      Whole whole → Fraction fraction digits → Exponent exponent power →
      Unsigned (whole ++ (fraction ++ exponent)) ⟨whole, digits, power⟩

/-- A numeral of the grammar, with the number that it denotes. -/
inductive Spells : List Char → Binary64 → Prop where
  | positive {chars : List Char} {numeral : Numeral} :
      Unsigned chars numeral → Spells chars (numeral.value false)
  | negative {chars : List Char} {numeral : Numeral} :
      Unsigned chars numeral → Spells ('-' :: chars) (numeral.value true)

/-! ## Digits -/

theorem Whole.digits {whole : List Char} (spelled : Whole whole) : Digits whole := by
  cases spelled with
  | zero =>
      intro c member
      rw [List.mem_singleton.mp member]
      rfl
  | positive _ digits => exact digits

/-- A text that does not begin with a digit. -/
def Stops (rest : List Char) : Prop :=
  ∀ c ∈ rest.head?, c.isDigit = false

/-- The digits that a text begins with are read up to the first other character. -/
theorem Digits.split
    {row rest : List Char}
    (digits : Digits row)
    (stops : Stops rest) :
    (row ++ rest).takeWhile Char.isDigit = row ∧
      (row ++ rest).dropWhile Char.isDigit = rest := by
  rw [List.takeWhile_append_of_pos digits, List.dropWhile_append_of_pos digits]
  cases rest with
  | nil => simp
  | cons c rest =>
      have other : c.isDigit = false := stops c rfl
      simp [other]

theorem digits_takeWhile (chars : List Char) : Digits (chars.takeWhile Char.isDigit) := by
  intro c member
  exact List.mem_takeWhile_imp member

theorem digits?_eq_some_iff {row : List Char} {n : Nat} :
    digits? row = some n ↔ row ≠ [] ∧ Digits row ∧ Nat.ofDigitChars 10 row 0 = n := by
  simp only [digits?, Digits, ← and_assoc, ← List.all_eq_true]
  split
  · next filled =>
      simp only [Bool.and_eq_true, Bool.not_eq_true', List.isEmpty_eq_false_iff] at filled
      simp [filled]
  · next unfilled =>
      simp only [Bool.and_eq_true, Bool.not_eq_true', List.isEmpty_eq_false_iff] at unfilled
      exact ⟨nofun, fun spelled => absurd spelled.1 unfilled⟩

/-! ## Exponents -/

/-- The digits of an exponent, read under its sign. -/
theorem map_digits?_eq_some_iff {row : List Char} {sign : Int → Int} {power : Int} :
    Option.map sign (do return ((← digits? row : Nat) : Int)) = some power ↔
      row ≠ [] ∧ Digits row ∧ sign (Nat.ofDigitChars 10 row 0) = power := by
  cases read : digits? row with
  | none =>
      have unread : ∀ n, ¬ (row ≠ [] ∧ Digits row ∧ Nat.ofDigitChars 10 row 0 = n) :=
        fun n spelled => nomatch read.symm.trans (digits?_eq_some_iff.mpr spelled)
      constructor
      · rintro ⟨⟩
      · rintro ⟨filled, digits, _⟩
        exact absurd ⟨filled, digits, rfl⟩ (unread _)
  | some n =>
      rcases digits?_eq_some_iff.mp read with ⟨filled, digits, rfl⟩
      simp [filled, digits]

theorem exponent?_eq_some_iff {chars : List Char} {power : Int} :
    exponent? chars = some power ↔ Exponent chars power := by
  constructor
  · intro read
    cases chars with
    | nil =>
        cases read
        exact .absent
    | cons mark rest =>
        simp only [exponent?] at read
        split at read
        · next marked =>
            simp only [Bool.or_eq_true, decide_eq_true_eq] at marked
            split at read
            · rcases map_digits?_eq_some_iff.mp read with ⟨filled, digits, rfl⟩
              exact .minus marked filled digits
            · rcases map_digits?_eq_some_iff.mp read with ⟨filled, digits, rfl⟩
              exact .plus marked filled digits
            · rcases map_digits?_eq_some_iff.mp read with ⟨filled, digits, rfl⟩
              exact .unsigned marked filled digits
        · cases read
  · intro spelled
    cases spelled with
    | absent => rfl
    | minus marked filled digits =>
        simp only [exponent?, marked, Bool.or_eq_true, decide_eq_true_eq, ↓reduceIte]
        exact map_digits?_eq_some_iff.mpr ⟨filled, digits, rfl⟩
    | plus marked filled digits =>
        simp only [exponent?, marked, Bool.or_eq_true, decide_eq_true_eq, ↓reduceIte]
        exact map_digits?_eq_some_iff.mpr ⟨filled, digits, rfl⟩
    | @unsigned mark row marked filled digits =>
        -- A row of digits begins with neither sign.
        have plain : ∀ sign rest, sign.isDigit = false → row ≠ sign :: rest := by
          rintro sign rest other rfl
          rw [digits sign List.mem_cons_self] at other
          cases other
        simp only [exponent?, marked, Bool.or_eq_true, decide_eq_true_eq, ↓reduceIte]
        split
        · exact absurd rfl (plain '-' _ rfl)
        · exact absurd rfl (plain '+' _ rfl)
        · exact map_digits?_eq_some_iff.mpr ⟨filled, digits, rfl⟩

theorem Exponent.head
    {chars : List Char}
    {power : Int}
    (spelled : Exponent chars power) :
    ∀ c ∈ chars.head?, c = 'e' ∨ c = 'E' := by
  intro c first
  cases spelled with
  | absent => cases first
  | unsigned marked => cases first; exact marked
  | plus marked => cases first; exact marked
  | minus marked => cases first; exact marked

theorem Exponent.stops {chars : List Char} {power : Int} (spelled : Exponent chars power) :
    Stops chars := by
  intro c first
  rcases spelled.head c first with rfl | rfl <;> rfl

/-! ## Unsigned numerals -/

theorem Fraction.loose
    {chars : List Char}
    {digits : Option (List Char)}
    (spelled : Fraction chars digits) :
    LooseFraction chars digits ∧ digits ≠ some [] := by
  cases spelled with
  | absent => exact ⟨.absent, nofun⟩
  | present filled digits => exact ⟨.present digits, by simpa using filled⟩

theorem LooseFraction.strict
    {chars : List Char}
    {digits : Option (List Char)}
    (spelled : LooseFraction chars digits)
    (filled : digits ≠ some []) :
    Fraction chars digits := by
  cases spelled with
  | absent => exact .absent
  | present digits => exact .present (fun empty => filled (congrArg some empty)) digits

/-- A text splits into digits, perhaps a point and digits, and perhaps an exponent. -/
theorem ofChars?_eq_some_iff {chars : List Char} {numeral : Numeral} :
    ofChars? chars = some numeral ↔
      ∃ fraction exponent, chars = numeral.whole ++ (fraction ++ exponent) ∧
        Digits numeral.whole ∧ LooseFraction fraction numeral.fraction ∧
          Exponent exponent numeral.exponent := by
  constructor
  · intro read
    have split := List.takeWhile_append_dropWhile (p := Char.isDigit) (l := chars)
    have digits := digits_takeWhile chars
    simp only [ofChars?] at read
    split at read
    · next rest pointed =>
        rcases Option.map_eq_some_iff.mp read with ⟨power, exponent, rfl⟩
        refine ⟨_, _, ?_, digits, .present (digits_takeWhile rest),
          exponent?_eq_some_iff.mp exponent⟩
        rw [List.cons_append, List.takeWhile_append_dropWhile, ← pointed, split]
    · rcases Option.map_eq_some_iff.mp read with ⟨power, exponent, rfl⟩
      refine ⟨_, _, ?_, digits, .absent, exponent?_eq_some_iff.mp exponent⟩
      rw [List.nil_append, split]
  · rcases numeral with ⟨whole, digits, power⟩
    rintro ⟨fractionChars, exponentChars, rfl, whole, fraction, exponent⟩
    dsimp only at *
    have power := exponent?_eq_some_iff.mpr exponent
    cases fraction with
    | absent =>
        rcases whole.split exponent.stops with ⟨taken, dropped⟩
        simp only [ofChars?, List.nil_append, taken, dropped]
        split
        · rcases exponent.head '.' rfl with marked | marked <;> cases marked
        · rw [power]
          rfl
    | @present row digits =>
        have pointed : Stops ('.' :: row ++ exponentChars) := by
          rintro _ ⟨⟩
          rfl
        rcases whole.split pointed with ⟨taken, dropped⟩
        rcases digits.split exponent.stops with ⟨rowTaken, rowDropped⟩
        simp only [ofChars?, taken, dropped]
        simp only [List.cons_append, rowTaken, rowDropped, power, Option.map_some]

/-- What `isStrict` demands of the digits of a numeral. -/
theorem isStrict_iff {numeral : Numeral} (digits : Digits numeral.whole) :
    numeral.isStrict = true ↔ Whole numeral.whole ∧ numeral.fraction ≠ some [] := by
  rcases numeral with ⟨whole, fraction, exponent⟩
  simp only [isStrict, Bool.and_eq_true, bne_iff_ne]
  refine and_congr_left fun _ => ?_
  constructor
  · intro strict
    split at strict
    · cases strict
    · exact .zero
    · exact .positive (bne_iff_ne.mp strict) digits
  · intro spelled
    cases spelled with
    | zero => rfl
    | positive notZero _ =>
        split
        · next equal => cases equal
        · rfl
        · next equal =>
            cases equal
            exact bne_iff_ne.mpr notZero

/-- A text splits into parts that are strict exactly when it is an unsigned numeral. -/
theorem unsigned_iff {chars : List Char} {numeral : Numeral} :
    Unsigned chars numeral ↔ ofChars? chars = some numeral ∧ numeral.isStrict = true := by
  rw [ofChars?_eq_some_iff]
  constructor
  · rintro ⟨whole, fraction, exponent⟩
    rcases fraction.loose with ⟨loose, filled⟩
    exact ⟨⟨_, _, rfl, whole.digits, loose, exponent⟩,
      (isStrict_iff whole.digits).mpr ⟨whole, filled⟩⟩
  · rcases numeral with ⟨whole, digits, power⟩
    rintro ⟨⟨fraction, exponent, rfl, digits, loose, exponent⟩, strict⟩
    rcases (isStrict_iff digits).mp strict with ⟨whole, filled⟩
    exact .parts whole (loose.strict filled) exponent

theorem Unsigned.head
    {chars : List Char}
    {numeral : Numeral}
    (spelled : Unsigned chars numeral) :
    ∃ first rest, chars = first :: rest ∧ first.isDigit = true := by
  rcases spelled with ⟨whole, _, _⟩
  have digits := whole.digits
  cases whole with
  | zero => exact ⟨_, _, rfl, rfl⟩
  | positive => exact ⟨_, _, rfl, digits _ List.mem_cons_self⟩

/-! ## Numerals -/

/-- The characters of numerals that are not digits. -/
def signs : List Char := ['-', '+', '.', 'e', 'E']

theorem Exponent.mem
    {chars : List Char}
    {power : Int}
    (spelled : Exponent chars power) :
    ∀ c ∈ chars, c.isDigit = true ∨ c ∈ signs := by
  have letter : ∀ mark, mark = 'e' ∨ mark = 'E' → mark ∈ signs := by
    rintro mark (rfl | rfl) <;> decide
  intro c member
  cases spelled with
  | absent => cases member
  | unsigned marked _ digits =>
      rcases List.mem_cons.mp member with rfl | among
      · exact .inr (letter _ marked)
      · exact .inl (digits c among)
  | plus marked _ digits =>
      rcases List.mem_cons.mp member with rfl | member
      · exact .inr (letter _ marked)
      rcases List.mem_cons.mp member with rfl | among
      · exact .inr (by decide)
      · exact .inl (digits c among)
  | minus marked _ digits =>
      rcases List.mem_cons.mp member with rfl | member
      · exact .inr (letter _ marked)
      rcases List.mem_cons.mp member with rfl | among
      · exact .inr (by decide)
      · exact .inl (digits c among)

theorem LooseFraction.mem
    {chars : List Char}
    {digits : Option (List Char)}
    (spelled : LooseFraction chars digits) :
    ∀ c ∈ chars, c.isDigit = true ∨ c ∈ signs := by
  intro c member
  cases spelled with
  | absent => cases member
  | present digits =>
      rcases List.mem_cons.mp member with rfl | among
      · exact .inr (by decide)
      · exact .inl (digits c among)

theorem Unsigned.mem
    {chars : List Char}
    {numeral : Numeral}
    (spelled : Unsigned chars numeral) :
    ∀ c ∈ chars, c.isDigit = true ∨ c ∈ signs := by
  rcases spelled with ⟨whole, fraction, exponent⟩
  intro c member
  simp only [List.mem_append] at member
  rcases member with among | among | among
  · exact .inl (whole.digits c among)
  · exact fraction.loose.1.mem c among
  · exact exponent.mem c among

/-- A numeral is made of digits, signs, a point and the mark of an exponent. -/
theorem Spells.mem {chars : List Char} {n : Binary64} (spelled : Spells chars n) :
    ∀ c ∈ chars, c.isDigit = true ∨ c ∈ signs := by
  intro c member
  cases spelled with
  | positive spelled => exact spelled.mem c member
  | negative spelled =>
      rcases List.mem_cons.mp member with rfl | among
      · exact .inr (by decide)
      · exact spelled.mem c among

/-- A numeral begins with a minus sign or a digit. -/
theorem Spells.head {chars : List Char} {n : Binary64} (spelled : Spells chars n) :
    ∃ first rest, chars = first :: rest ∧ (first = '-' ∨ first.isDigit = true) := by
  cases spelled with
  | positive spelled =>
      rcases spelled.head with ⟨first, rest, rfl, digit⟩
      exact ⟨first, rest, rfl, .inr digit⟩
  | negative => exact ⟨_, _, rfl, .inl rfl⟩

/-- A reader of one sign accepts the unsigned numerals of the grammar. -/
theorem value?_eq_some_iff {negative : Bool} {chars : List Char} {n : Binary64} :
    (match ofChars? chars with
      | some numeral => if numeral.isStrict then some (numeral.value negative) else none
      | none => none) = some n ↔
      ∃ numeral, Unsigned chars numeral ∧ numeral.value negative = n := by
  simp only [unsigned_iff]
  cases ofChars? chars with
  | none => simp
  | some numeral => by_cases strict : numeral.isStrict = true <;> simp [strict, and_assoc]

/-- The strict reader accepts the numerals of the grammar and no other words. -/
theorem strict?_eq_some_iff {chars : List Char} {n : Binary64} :
    strict? chars = some n ↔ Spells chars n := by
  unfold strict?
  split
  next negative unsigned signed =>
    refine value?_eq_some_iff.trans ?_
    split at signed
    · cases signed
      constructor
      · rintro ⟨numeral, spelled, rfl⟩
        exact .negative spelled
      · intro spelled
        cases spelled with
        | negative spelled => exact ⟨_, spelled, rfl⟩
        | positive spelled =>
            rcases spelled.head with ⟨first, rest, equal, digit⟩
            cases equal
            cases digit
    · next plain =>
        cases signed
        constructor
        · rintro ⟨numeral, spelled, rfl⟩
          exact .positive spelled
        · intro spelled
          cases spelled with
          | negative => exact absurd rfl (plain _)
          | positive spelled => exact ⟨_, spelled, rfl⟩

end ConvergentStore.Numeral
