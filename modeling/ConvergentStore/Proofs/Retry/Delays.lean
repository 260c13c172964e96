import ConvergentStore.Proofs.Number.Grammar
import ConvergentStore.Proofs.Number.Integers
import ConvergentStore.Proofs.Number.Rounding
import ConvergentStore.Proofs.Text.Blank
import ConvergentStore.Retry.Delay

/-!
# Forms of delays

A delay can be given in several ways, and in none of them it is negative
(`zero_le_of_ofInput`). In words it is an amount, perhaps after a minus sign,
then blanks, then the name of a unit; `ofText_eq_ok_iff` says that the reader
accepts these words and no others. The units, and how long each of them lasts,
are those of `unitNames`, and a whole number of units is a delay of as many
milliseconds as they last (`ofText_of_names`).
-/

namespace ConvergentStore

-- Powers of natural numbers are the same under every import.
attribute [local instance(high)] instPowNat

/-! ## Signs -/

namespace Binary64

/-- A quotient without a sign is not negative, however it is rounded. -/
theorem zero_le_ofQuotient (numerator denominator : Nat) :
    le 0 (ofQuotient false numerator denominator) = true := by
  rw [zero_le_iff, ofQuotient]
  split
  · exact ⟨rfl, Int.natCast_nonneg _⟩
  · exact ⟨rfl, Int.natCast_nonneg _⟩

/-- A number that is not negative can be divided by a positive one. -/
theorem zero_le_div
    {x : Binary64}
    {n : Nat}
    (unsigned : ∃ numerator denominator, x = ofQuotient false numerator denominator)
    (positive : 0 < n)
    (bounded : n ≤ 2 ^ 53) :
    le 0 (x / ofNat n) = true := by
  rcases unsigned with ⟨numerator, denominator, rfl⟩
  have units : scale * n ≠ 0 := Nat.mul_ne_zero scale_pos.ne' positive.ne'
  show le 0 (div _ _) = true
  rw [ofNat_eq_finite bounded, ofQuotient]
  split
  · simp only [div, units, ↓reduceIte]
    exact zero_le_ofQuotient _ _
  · exact zero_le_iff.mpr ⟨rfl, Int.natCast_nonneg _⟩

end Binary64

namespace Delay

open Binary64

theorem zero_le_ofNanos (nanos : Int) : le 0 (ofNanos nanos) = true := by
  unfold ofNanos
  split
  · exact le_self_of_toInt? toInt?_zero
  · next positive =>
      refine zero_le_div ⟨scale * nanos.natAbs, 1, ?_⟩ (by decide) (by decide)
      rw [ofInt, decide_eq_false (by omega)]

theorem zero_le_ofMillis (millis : Binary64) : le 0 (ofMillis millis) = true := by
  unfold ofMillis
  split
  · exact le_self_of_toInt? toInt?_zero
  · next above =>
      have positive : lt 0 millis = true := by simpa using above
      split
      · exact le_of_lt positive
      · split
        · exact zero_le_ofNanos _
        · exact le_of_lt positive

/-- What is held to the nanosecond is not negative. -/
theorem zero_le_of_map_ofNanos
    {nanos : Except DelayFault Int}
    {delay : Binary64}
    (given : nanos.map ofNanos = .ok delay) :
    le 0 delay = true := by
  cases nanos with
  | error fault => cases given
  | ok whole =>
      cases given
      exact zero_le_ofNanos whole

theorem zero_le_of_ofAmount
    {negative : Bool}
    {amount : Numeral}
    {unit : TimeUnit}
    {delay : Binary64}
    (given : ofAmount negative amount unit = .ok delay) :
    le 0 delay = true := by
  rcases amount with ⟨whole, fraction, exponent⟩
  cases unit with
  | nanos =>
      cases fraction with
      | none => cases given; exact zero_le_ofNanos _
      | some row => exact zero_le_of_map_ofNanos given
  | micros =>
      cases fraction with
      | none => cases given; exact zero_le_ofNanos _
      | some row => exact zero_le_of_map_ofNanos given
  | millis each => cases given; exact zero_le_ofMillis _

theorem zero_le_of_ofText
    {content : String}
    {delay : Binary64}
    (given : ofText content = .ok delay) :
    le 0 delay = true := by
  unfold ofText at given
  split at given
  split at given
  · cases given
  · split at given
    · cases given
    · exact zero_le_of_ofAmount given

theorem zero_le_of_ofParts
    {numbers : List Binary64}
    {delay : Binary64}
    (given : ofParts numbers = .ok delay) :
    le 0 delay = true := by
  unfold ofParts at given
  split at given
  · next seconds nanos =>
      dsimp only at given
      split_ifs at given
      · cases given
        exact le_self_of_toInt? toInt?_zero
      · cases given
        exact zero_le_iff.mpr ⟨rfl, Int.natCast_nonneg _⟩
      · split at given
        · cases given
          exact zero_le_ofNanos _
        · cases given
        · cases given
  · cases given

/-- No input gives a negative delay. -/
theorem zero_le_of_ofInput
    {input : DelayInput}
    {delay : Binary64}
    (given : ofInput input = .ok delay) :
    le 0 delay = true := by
  cases input with
  | millis amount =>
      cases given
      exact zero_le_ofMillis amount
  | text content => exact zero_le_of_ofText given
  | parts numbers => exact zero_le_of_ofParts given
  | nanos amount =>
      cases given
      exact zero_le_ofNanos amount

/-! ## Units -/

/-- How many nanoseconds a unit lasts. -/
def TimeUnit.nanoseconds : TimeUnit → Nat
  | .nanos => 1
  | .micros => 1000
  | .millis each => each * 1000000

/-- The names of units; from the third on, they last whole numbers of milliseconds. -/
def unitNames : List (String × TimeUnit) :=
  [("nano", .nanos), ("micro", .micros), ("milli", .millis 1), ("second", .millis 1000),
    ("minute", .millis (60 * 1000)), ("hour", .millis (60 * 60 * 1000)),
    ("day", .millis (24 * 60 * 60 * 1000)), ("week", .millis (7 * 24 * 60 * 60 * 1000))]

/-- A word names a unit, in the singular or in the plural. -/
def Names (word : String) (unit : TimeUnit) : Prop :=
  ∃ name, (name, unit) ∈ unitNames ∧ (word = name ∨ word = name ++ "s")

theorem unit?_eq_some_iff {word : String} {unit : TimeUnit} :
    unit? word = some unit ↔ Names word unit := by
  constructor
  · intro read
    unfold unit? at read
    repeat'
      split at read
      · next either =>
          simp only [Bool.or_eq_true, decide_eq_true_eq] at either
          cases read
          exact ⟨_, by decide, either⟩
    cases read
  · rintro ⟨name, member, spelled⟩
    have both : ∀ entry ∈ unitNames,
        unit? entry.1 = some entry.2 ∧ unit? (entry.1 ++ "s") = some entry.2 := by
      decide +kernel
    rcases spelled with rfl | rfl
    · exact (both _ member).1
    · exact (both _ member).2

/-- The name of a unit does not begin with a blank. -/
theorem Names.isBlank_head
    {word : List Char}
    {unit : TimeUnit}
    (named : Names (String.ofList word) unit) :
    ∀ c ∈ word.head?, Text.isBlank c = false := by
  rcases named with ⟨name, member, spelled⟩
  have visible : ∀ entry ∈ unitNames,
      entry.1.toList.head?.any Text.isBlank = false ∧
        (entry.1 ++ "s").toList.head?.any Text.isBlank = false := by
    decide +kernel
  rw [← String.toList_ofList (l := word)]
  rcases spelled with singular | plural
  · rw [singular]
    exact (Option.any_eq_false ..).mp (visible _ member).1
  · rw [plural]
    exact (Option.any_eq_false ..).mp (visible _ member).2

/-! ## Words -/

/-- The amount, the sign and the unit that words for a delay consist of. -/
inductive Spells : List Char → Bool → Numeral → TimeUnit → Prop where
  | positive {whole fraction blanks word : List Char} {digits : Option (List Char)}
      {unit : TimeUnit} :
      whole ≠ [] → Numeral.Digits whole → Numeral.Fraction fraction digits →
      blanks ≠ [] → Text.Blanks blanks →
      Names (String.ofList word) unit →
      Spells (whole ++ (fraction ++ (blanks ++ word))) false ⟨whole, digits, 0⟩ unit
  | negative {chars : List Char} {amount : Numeral} {unit : TimeUnit} :
      Spells chars false amount unit → Spells ('-' :: chars) true amount unit

theorem spacedUnit?_eq_some_iff {chars : List Char} {unit : TimeUnit} :
    spacedUnit? chars = some unit ↔
      ∃ blanks word, chars = blanks ++ word ∧ blanks ≠ [] ∧
        Text.Blanks blanks ∧ Names (String.ofList word) unit := by
  simp only [← unit?_eq_some_iff]
  constructor
  · intro read
    cases chars with
    | nil => cases read
    | cons c rest =>
        simp only [spacedUnit?, Option.ite_none_right_eq_some] at read
        rcases read with ⟨blank, named⟩
        refine ⟨c :: rest.takeWhile Text.isBlank, _, ?_, List.cons_ne_nil _ _, ?_, named⟩
        · rw [List.cons_append, List.takeWhile_append_dropWhile]
        · intro d member
          rcases List.mem_cons.mp member with rfl | among
          · exact blank
          · exact Text.blanks_takeWhile rest d among
  · rintro ⟨blanks, word, rfl, filled, blank, named⟩
    cases blanks with
    | nil => exact absurd rfl filled
    | cons c blanks =>
        have later : Text.Blanks blanks := fun d among => blank d (List.mem_cons_of_mem c among)
        have dropped := later.dropWhile_append (unit?_eq_some_iff.mp named).isBlank_head
        simp only [List.cons_append, spacedUnit?, blank c List.mem_cons_self, ↓reduceIte, dropped]
        exact named

/-- An amount is read up to what is neither a digit nor a point. -/
theorem amount?_eq_some
    {whole fraction rest : List Char}
    {digits : Option (List Char)}
    (filled : whole ≠ [])
    (row : Numeral.Digits whole)
    (spelled : Numeral.Fraction fraction digits)
    (stops : ∀ c ∈ rest.head?, c.isDigit = false ∧ c ≠ '.') :
    amount? (whole ++ (fraction ++ rest)) = some (⟨whole, digits, 0⟩, rest) := by
  have nonempty : whole.isEmpty = false := List.isEmpty_eq_false_iff.mpr filled
  have ends : Numeral.Stops rest := fun c first => (stops c first).1
  cases spelled with
  | absent =>
      rcases row.split ends with ⟨taken, dropped⟩
      simp only [amount?, List.nil_append, taken, dropped, nonempty, Bool.false_eq_true, ↓reduceIte]
      split
      · exact absurd rfl (stops '.' rfl).2
      · rfl
  | @present row' some digits =>
      have pointed : Numeral.Stops ('.' :: row' ++ rest) := by
        rintro _ ⟨⟩
        rfl
      rcases row.split pointed with ⟨taken, dropped⟩
      rcases digits.split ends with ⟨rowTaken, rowDropped⟩
      have nonempty' : row'.isEmpty = false := List.isEmpty_eq_false_iff.mpr some
      simp only [amount?, taken, dropped, nonempty, Bool.false_eq_true, ↓reduceIte]
      simp only [List.cons_append, rowTaken, rowDropped, nonempty', Bool.false_eq_true, ↓reduceIte]

/-- What is read as an amount is digits, perhaps with a point and more digits. -/
theorem parts_of_amount?
    {chars rest : List Char}
    {amount : Numeral}
    (read : amount? chars = some (amount, rest)) :
    ∃ whole fraction digits, chars = whole ++ (fraction ++ rest) ∧ amount = ⟨whole, digits, 0⟩ ∧
      whole ≠ [] ∧ Numeral.Digits whole ∧ Numeral.Fraction fraction digits := by
  have split := List.takeWhile_append_dropWhile (p := Char.isDigit) (l := chars)
  have row := Numeral.digits_takeWhile chars
  unfold amount? at read
  dsimp only at read
  split_ifs at read with empty
  rw [List.isEmpty_iff] at empty
  split at read
  · next after pointed =>
      split_ifs at read with bare
      rw [List.isEmpty_iff] at bare
      cases read
      refine ⟨_, '.' :: after.takeWhile Char.isDigit, _, ?_, rfl, empty, row,
        .present bare (Numeral.digits_takeWhile after)⟩
      rw [List.cons_append, List.takeWhile_append_dropWhile, ← pointed, split]
  · cases read
    exact ⟨_, [], none, by rw [List.nil_append, split], rfl, empty, row, .absent⟩

/-- A blank is neither a digit nor a point. -/
theorem stops_of_isBlank {c : Char} (blank : Text.isBlank c = true) :
    c.isDigit = false ∧ c ≠ '.' := by
  refine ⟨?digit, ?point⟩
  case digit =>
    by_contra digit
    rw [Text.isBlank_of_isDigit (Bool.not_eq_false _ ▸ digit)] at blank
    cases blank
  case point =>
    rintro rfl
    cases blank

/-- An amount and a unit are read from the words that they are spelled with. -/
theorem spells_false_iff {chars : List Char} {amount : Numeral} {unit : TimeUnit} :
    Spells chars false amount unit ↔
      ∃ rest, amount? chars = some (amount, rest) ∧ spacedUnit? rest = some unit := by
  constructor
  · intro spelled
    cases spelled with
    | @positive whole fraction blanks word digits _ filled row spelled some blank named =>
        refine ⟨blanks ++ word, amount?_eq_some filled row spelled ?_,
          spacedUnit?_eq_some_iff.mpr ⟨blanks, word, rfl, some, blank, named⟩⟩
        intro c first
        rw [List.head?_append_of_ne_nil _ some] at first
        exact stops_of_isBlank (blank c (List.mem_of_mem_head? first))
  · rintro ⟨rest, read, spaced⟩
    rcases parts_of_amount? read with ⟨whole, fraction, digits, rfl, rfl, filled, row, spelled⟩
    rcases spacedUnit?_eq_some_iff.mp spaced with ⟨blanks, word, rfl, some, blank, named⟩
    exact .positive filled row spelled some blank named

theorem spells_true_iff {chars : List Char} {amount : Numeral} {unit : TimeUnit} :
    Spells chars true amount unit ↔
      ∃ rest, chars = '-' :: rest ∧ Spells rest false amount unit := by
  constructor
  · intro spelled
    cases spelled with
    | negative spelled => exact ⟨_, rfl, spelled⟩
  · rintro ⟨rest, rfl, spelled⟩
    exact .negative spelled

/-- A row of digits does not begin with a minus sign, nor do words that have none. -/
theorem ne_cons_of_spells_false
    {chars : List Char}
    {amount : Numeral}
    {unit : TimeUnit}
    (spelled : Spells chars false amount unit)
    (rest : List Char) :
    chars ≠ '-' :: rest := by
  cases spelled with
  | @positive whole _ _ _ _ _ filled row _ _ _ _ =>
      cases whole with
      | nil => exact absurd rfl filled
      | cons c whole =>
          have digit := row c List.mem_cons_self
          intro equal
          cases equal
          cases digit

/-- A reader of one sign goes by the amount and the unit that are spelled after it. -/
theorem amount_eq_ok_iff {negative : Bool} {chars : List Char} {delay : Binary64} :
    (match amount? chars with
      | none => Except.error DelayFault.unreadable
      | some (amount, rest) =>
          match spacedUnit? rest with
          | none => Except.error DelayFault.unreadable
          | some unit => ofAmount negative amount unit) = .ok delay ↔
      ∃ amount unit, Spells chars false amount unit ∧
        ofAmount negative amount unit = .ok delay := by
  simp only [spells_false_iff]
  cases amount? chars with
  | none => simp
  | some parts =>
      rcases parts with ⟨amount, rest⟩
      cases spaced : spacedUnit? rest with
      | none => simp [spaced]
      | some unit => simp [spaced]

/-- The reader goes by the amount and the unit that the text spells. -/
theorem ofText_eq_ok_iff {content : String} {delay : Binary64} :
    ofText content = .ok delay ↔
      ∃ negative amount unit, Spells content.toList negative amount unit ∧
        ofAmount negative amount unit = .ok delay := by
  unfold ofText
  split
  next negative unsigned signed =>
    refine amount_eq_ok_iff.trans ?_
    split at signed
    · next rest minus =>
        cases signed
        rw [minus]
        constructor
        · rintro ⟨amount, unit, spelled, value⟩
          exact ⟨true, amount, unit, .negative spelled, value⟩
        · rintro ⟨negative, amount, unit, spelled, value⟩
          cases negative with
          | false => exact absurd rfl (ne_cons_of_spells_false spelled _)
          | true =>
              rcases spells_true_iff.mp spelled with ⟨_, ⟨⟩, unsigned⟩
              exact ⟨amount, unit, unsigned, value⟩
    · next plain =>
        cases signed
        constructor
        · rintro ⟨amount, unit, spelled, value⟩
          exact ⟨false, amount, unit, spelled, value⟩
        · rintro ⟨negative, amount, unit, spelled, value⟩
          cases negative with
          | false => exact ⟨amount, unit, spelled, value⟩
          | true =>
              rcases spells_true_iff.mp spelled with ⟨rest, minus, _⟩
              exact absurd minus (plain rest)

/-! ## Whole amounts -/

theorem ofNanos_natCast (n : Nat) : ofNanos n = ofNat n / 1000000 := by
  unfold ofNanos
  split
  · obtain rfl : n = 0 := by omega
    decide +kernel
  · rw [ofInt, decide_eq_false (by omega), Int.natAbs_natCast]
    rfl

theorem ofMillis_ofNat {n : Nat} (bounded : n ≤ 2 ^ 53) : ofMillis (ofNat n) = ofNat n := by
  have held : (ofNat n).toInt? = some (n : Int) := toInt?_ofNat bounded
  have whole : (ofNat n).isInteger = true := by rw [isInteger, held, Option.isSome_some]
  rcases Nat.eq_zero_or_pos n with rfl | positive
  · decide +kernel
  · have above : lt 0 (ofNat n) = true :=
      (lt_iff_of_toInt? toInt?_zero held).mpr (Int.natCast_pos.mpr positive)
    simp only [ofMillis, above, whole, Bool.not_true, Bool.false_eq_true, ↓reduceIte]

/-- A whole number of units lasts that many times as long as one of them. -/
theorem ofAmount_whole
    {whole : List Char}
    {n : Nat}
    {unit : TimeUnit}
    (counted : Nat.ofDigitChars 10 whole 0 = n)
    (positive : 0 < unit.nanoseconds)
    (small : unit.nanoseconds ≤ 2 ^ 53)
    (bounded : n * unit.nanoseconds ≤ 2 ^ 53) :
    ofAmount false ⟨whole, none, 0⟩ unit = .ok (ofNat (n * unit.nanoseconds) / 1000000) := by
  have alone : n ≤ 2 ^ 53 := (Nat.le_mul_of_pos_right n positive).trans bounded
  have value : Numeral.value false ⟨whole, none, 0⟩ = ofNat n := by
    subst counted
    rw [← ofDecimal_ofNat alone]
    simp [Numeral.value]
  cases unit with
  | nanos =>
      rw [TimeUnit.nanoseconds, Nat.mul_one, ← ofNanos_natCast, ← counted]
      rfl
  | micros =>
      rw [TimeUnit.nanoseconds, ← ofNanos_natCast, Nat.mul_comm, ← counted]
      rfl
  | millis each =>
      have millis : each ≤ 2 ^ 53 := (Nat.le_mul_of_pos_right each (by decide)).trans small
      simp only [TimeUnit.nanoseconds, ← Nat.mul_assoc] at bounded ⊢
      have product : n * each ≤ 2 ^ 53 := (Nat.le_mul_of_pos_right _ (by decide)).trans bounded
      show Except.ok (ofMillis (Numeral.value false ⟨whole, none, 0⟩ * ofNat each)) =
        .ok (ofNat (n * each * 1000000) / ofNat 1000000)
      rw [value, ofNat_mul_ofNat alone millis, ofMillis_ofNat product,
        ofNat_mul_div_ofNat (by decide) (by decide) bounded]

/-- Words for a whole number of units give the milliseconds that these last. -/
theorem ofText_of_names
    {whole blanks : List Char}
    {word : String}
    {unit : TimeUnit}
    (filled : whole ≠ [])
    (row : Numeral.Digits whole)
    (apart : blanks ≠ [])
    (blank : Text.Blanks blanks)
    (named : Names word unit)
    (bounded : Nat.ofDigitChars 10 whole 0 * unit.nanoseconds ≤ 2 ^ 53) :
    ofText (String.ofList (whole ++ (blanks ++ word.toList))) =
      .ok (ofNat (Nat.ofDigitChars 10 whole 0 * unit.nanoseconds) / 1000000) := by
  have lasting : ∀ entry ∈ unitNames,
      0 < entry.2.nanoseconds ∧ entry.2.nanoseconds ≤ 2 ^ 53 := by
    decide +kernel
  rcases named with ⟨name, member, either⟩
  refine ofText_eq_ok_iff.mpr ⟨false, ⟨whole, none, 0⟩, unit, ?spelled,
    ofAmount_whole rfl (lasting _ member).1 (lasting _ member).2 bounded⟩
  case spelled =>
    rw [String.toList_ofList]
    show Spells (whole ++ ([] ++ (blanks ++ word.toList))) false ⟨whole, none, 0⟩ unit
    refine .positive filled row .absent apart blank ?_
    rw [String.ofList_toList]
    exact ⟨name, member, either⟩

example : ofText "1.5  seconds" = .ok 1500 := by decide +kernel

example : ofText "-2 hours" = .ok 0 := by decide +kernel

end Delay

end ConvergentStore
