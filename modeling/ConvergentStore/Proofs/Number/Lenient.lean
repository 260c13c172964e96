import ConvergentStore.Proofs.Number.Grammar
import ConvergentStore.Proofs.Text.Blank
import Mathlib.Data.List.Induction

/-!
# The grammar of lenient numerals

The lenient form of a numeral, production by production: blanks, then nothing,
or a decimal numeral or the name of infinity, perhaps after a sign, or the
digits of another base after its mark, then blanks. `lenient?_eq_some_iff` says
that the lenient reader accepts the words of this grammar and no others, and
gives each the number that it denotes.
-/

namespace ConvergentStore.Numeral

/-! ## Productions -/

/-- Infinity by its name, or a decimal numeral with a digit on at least one side of the point. -/
inductive Magnitude (negative : Bool) : List Char → Binary64 → Prop where
  | infinity : Magnitude negative "Infinity".toList (.infinity negative)
  | decimal {fraction exponent : List Char} {numeral : Numeral} :
      Digits numeral.whole → LooseFraction fraction numeral.fraction →
      Exponent exponent numeral.exponent →
      ¬ (numeral.whole = [] ∧ numeral.fraction.getD [] = []) →
      Magnitude negative (numeral.whole ++ (fraction ++ exponent)) (numeral.value negative)

/-- The characters that announce the digits of a base. -/
inductive Mark : Char → Nat → Prop where
  | hexadecimal {mark : Char} : mark = 'x' ∨ mark = 'X' → Mark mark 16
  | octal {mark : Char} : mark = 'o' ∨ mark = 'O' → Mark mark 8
  | binary {mark : Char} : mark = 'b' ∨ mark = 'B' → Mark mark 2

/-- A row of digits of a base, with the natural number that it denotes. -/
inductive InBase (base : Nat) : List Char → Nat → Prop where
  | empty : InBase base [] 0
  | more {row : List Char} {total : Nat} {c : Char} {value : Nat} :
      InBase base row total → baseDigit? base c = some value →
      InBase base (row ++ [c]) (base * total + value)

/-- A numeral without blanks around it, with the number that it denotes. -/
inductive Bare : List Char → Binary64 → Prop where
  | empty : Bare [] 0
  | unsigned {chars : List Char} {n : Binary64} : Magnitude false chars n → Bare chars n
  | plus {chars : List Char} {n : Binary64} : Magnitude false chars n → Bare ('+' :: chars) n
  | minus {chars : List Char} {n : Binary64} : Magnitude true chars n → Bare ('-' :: chars) n
  | based {mark : Char} {base : Nat} {row : List Char} {total : Nat} :
      Mark mark base → row ≠ [] → InBase base row total →
      Bare ('0' :: mark :: row) (.ofNat total)

/-- A lenient numeral of the grammar, with the number that it denotes. -/
def Denotes (text : List Char) (n : Binary64) : Prop :=
  ∃ before bare after, text = before ++ (bare ++ after) ∧ Text.Blanks before ∧
    Text.Blanks after ∧ Bare bare n

/-! ## Bases -/

theorem inBase_concat_iff {base : Nat} {row : List Char} {c : Char} {total : Nat} :
    InBase base (row ++ [c]) total ↔
      ∃ earlier value, InBase base row earlier ∧ baseDigit? base c = some value ∧
        base * earlier + value = total := by
  constructor
  · intro spelled
    generalize whole : row ++ [c] = chars at spelled
    cases spelled with
    | empty => exact absurd whole (List.append_ne_nil_of_right_ne_nil _ (List.cons_ne_nil _ _))
    | more spelled digit =>
        rcases List.append_inj' whole rfl with ⟨rfl, ⟨⟩⟩
        exact ⟨_, _, spelled, digit, rfl⟩
  · rintro ⟨earlier, value, spelled, digit, rfl⟩
    exact .more spelled digit

/-- The digits of a row are read from the first one on, and each moves those before it up. -/
theorem inBase_iff {base : Nat} {row : List Char} {total : Nat} :
    InBase base row total ↔
      ∃ values, row.mapM (baseDigit? base) = some values ∧
        values.foldl (fun total value => base * total + value) 0 = total := by
  -- A further digit at the end multiplies what stands before it, so the end is where to induct.
  induction row using List.reverseRecOn generalizing total with
  | nil =>
      constructor
      · intro spelled
        generalize none : ([] : List Char) = chars at spelled
        cases spelled with
        | empty => exact ⟨[], rfl, rfl⟩
        | more => exact absurd none.symm (by simp)
      · rintro ⟨values, ⟨⟩, rfl⟩
        exact .empty
  | append_singleton row c ih =>
      rw [inBase_concat_iff]
      simp only [ih, List.mapM_append]
      cases row.mapM (baseDigit? base) with
      | none => simp
      | some earlier =>
          cases digit : baseDigit? base c with
          | none => simp [digit]
          | some value => simp [digit]

theorem inBase?_eq_some_iff {base : Nat} {row : List Char} {n : Binary64} :
    inBase? base row = some n ↔ row ≠ [] ∧ ∃ total, InBase base row total ∧ .ofNat total = n := by
  simp only [inBase_iff, inBase?, List.isEmpty_iff, Option.ite_none_left_eq_some,
    Option.map_eq_some_iff]
  refine and_congr_right fun _ => ?_
  constructor
  · rintro ⟨values, read, rfl⟩
    exact ⟨_, ⟨values, read, rfl⟩, rfl⟩
  · rintro ⟨_, ⟨values, read, rfl⟩, rfl⟩
    exact ⟨values, read, rfl⟩

/-! ## Magnitudes -/

theorem isBlank_of_mem {row : List Char} (visible : row.all (!Text.isBlank ·) = true) :
    ∀ c ∈ row, Text.isBlank c = false := by
  simpa using visible

section

variable {negative : Bool} {chars : List Char} {n : Binary64}

theorem magnitude_iff :
    Magnitude negative chars n ↔
      chars = "Infinity".toList ∧ Binary64.infinity negative = n ∨
        ∃ numeral, ofChars? chars = some numeral ∧
          ¬ (numeral.whole = [] ∧ numeral.fraction.getD [] = []) ∧ numeral.value negative = n := by
  constructor
  · intro spelled
    cases spelled with
    | infinity => exact .inl ⟨rfl, rfl⟩
    | @decimal fraction exponent numeral whole fractional power filled =>
        exact .inr ⟨numeral, ofChars?_eq_some_iff.mpr ⟨_, _, rfl, whole, fractional, power⟩,
          filled, rfl⟩
  · rintro (⟨rfl, rfl⟩ | ⟨numeral, read, filled, rfl⟩)
    · exact .infinity
    · rcases ofChars?_eq_some_iff.mp read with ⟨_, _, rfl, whole, fractional, power⟩
      exact .decimal whole fractional power filled

theorem unsigned?_eq_some_iff : unsigned? negative chars = some n ↔ Magnitude negative chars n := by
  rw [magnitude_iff, unsigned?]
  split
  · next name =>
      subst name
      have unread : ofChars? "Infinity".toList = none := rfl
      simp only [unread, reduceCtorEq, false_and, exists_false, or_false, true_and,
        Option.some.injEq]
  · next other =>
      simp only [other, false_and, false_or]
      cases ofChars? chars with
      | none => simp
      | some numeral => simp

variable (spelled : Magnitude negative chars n)

include spelled

theorem Magnitude.mem :
    chars = "Infinity".toList ∨ ∀ c ∈ chars, c.isDigit = true ∨ c ∈ signs := by
  cases spelled with
  | infinity => exact .inl rfl
  | decimal whole fraction exponent _ =>
      refine .inr fun c member => ?_
      simp only [List.mem_append] at member
      rcases member with among | among | among
      · exact .inl (whole c among)
      · exact fraction.mem c among
      · exact exponent.mem c among

theorem Magnitude.head :
    ∃ first rest, chars = first :: rest ∧ (first.isDigit = true ∨ first = '.' ∨ first = 'I') := by
  cases spelled with
  | infinity => exact ⟨_, _, rfl, .inr (.inr rfl)⟩
  | @decimal fraction exponent numeral whole fractional _ filled =>
      rcases numeral with ⟨row, digits, power⟩
      cases row with
      | cons first rest => exact ⟨first, _, rfl, .inl (whole first List.mem_cons_self)⟩
      | nil =>
          cases fractional with
          | absent => exact absurd ⟨rfl, rfl⟩ filled
          | present => exact ⟨_, _, rfl, .inr (.inl rfl)⟩

theorem Magnitude.isBlank_eq_false : ∀ c ∈ chars, Text.isBlank c = false := by
  intro c member
  rcases spelled.mem with rfl | ordinary
  · exact isBlank_of_mem (by decide) c member
  · rcases ordinary c member with digit | sign
    · exact Text.isBlank_of_isDigit digit
    · exact isBlank_of_mem (by decide) c sign

end

/-! ## Numerals without blanks -/

theorem Mark.unique
    {mark : Char}
    {first second : Nat}
    (one : Mark mark first)
    (other : Mark mark second) :
    first = second := by
  cases one <;> cases other <;> grind

theorem Mark.not_ordinary {mark : Char} {base : Nat} (announces : Mark mark base) :
    ¬ (mark.isDigit = true ∨ mark ∈ signs) ∧ Text.isBlank mark = false := by
  cases announces with
  | hexadecimal either => rcases either with rfl | rfl <;> decide
  | octal either => rcases either with rfl | rfl <;> decide
  | binary either => rcases either with rfl | rfl <;> decide

/-- A digit of a base is a visible character. -/
theorem isBlank_of_baseDigit?
    {base value : Nat}
    {c : Char}
    (digit : baseDigit? base c = some value) :
    Text.isBlank c = false := by
  simp only [baseDigit?, Option.filter_eq_some_iff] at digit
  rcases digit with ⟨read, _⟩
  have letter : ∀ first last : Char, 32 < first.toNat → last.toNat < 160 →
      (first ≤ c && c ≤ last) = true → Text.isBlank c = false := by
    intro first last lower upper between
    simp only [Bool.and_eq_true, decide_eq_true_eq] at between
    exact Text.isBlank_eq_false (lower.trans_le between.1) (lt_of_le_of_lt between.2 upper)
  split_ifs at read with decimal small capital
  · exact Text.isBlank_of_isDigit decimal
  · exact letter _ _ (by decide) (by decide) small
  · exact letter _ _ (by decide) (by decide) capital

theorem InBase.isBlank_eq_false
    {base total : Nat}
    {row : List Char}
    (spelled : InBase base row total) :
    ∀ c ∈ row, Text.isBlank c = false := by
  induction spelled with
  | empty => nofun
  | more _ digit ih =>
      intro c member
      rcases List.mem_append.mp member with before | last
      · exact ih c before
      · rw [List.mem_singleton.mp last]
        exact isBlank_of_baseDigit? digit

theorem Bare.isBlank_eq_false {chars : List Char} {n : Binary64} (spelled : Bare chars n) :
    ∀ c ∈ chars, Text.isBlank c = false := by
  intro c member
  cases spelled with
  | empty => cases member
  | unsigned spelled => exact spelled.isBlank_eq_false c member
  | plus spelled =>
      rcases List.mem_cons.mp member with rfl | among
      · decide
      · exact spelled.isBlank_eq_false c among
  | minus spelled =>
      rcases List.mem_cons.mp member with rfl | among
      · decide
      · exact spelled.isBlank_eq_false c among
  | based announces _ spelled =>
      rcases List.mem_cons.mp member with rfl | member
      · decide
      rcases List.mem_cons.mp member with rfl | among
      · exact announces.not_ordinary.2
      · exact spelled.isBlank_eq_false c among

theorem bare_based_iff
    {mark : Char}
    {base : Nat}
    (announces : Mark mark base)
    {row : List Char}
    {n : Binary64} :
    Bare ('0' :: mark :: row) n ↔ inBase? base row = some n := by
  rw [inBase?_eq_some_iff]
  constructor
  · intro spelled
    cases spelled with
    | based also filled spelled =>
        cases announces.unique also
        exact ⟨filled, _, spelled, rfl⟩
    | unsigned spelled =>
        rcases spelled.mem with name | ordinary
        · cases name
        · exact absurd (ordinary mark (by simp)) announces.not_ordinary.1
  · rintro ⟨filled, total, spelled, rfl⟩
    exact .based announces filled spelled

/-- A numeral that begins neither with a sign nor with the mark of a base is a magnitude. -/
theorem bare_iff_of_unmarked
    {chars : List Char}
    {n : Binary64}
    (filled : chars ≠ [])
    (noPlus : ∀ rest, chars ≠ '+' :: rest)
    (noMinus : ∀ rest, chars ≠ '-' :: rest)
    (noMark : ∀ mark base rest, Mark mark base → chars ≠ '0' :: mark :: rest) :
    Bare chars n ↔ unsigned? false chars = some n := by
  rw [unsigned?_eq_some_iff]
  constructor
  · intro spelled
    cases spelled with
    | empty => exact absurd rfl filled
    | unsigned spelled => exact spelled
    | plus => exact absurd rfl (noPlus _)
    | minus => exact absurd rfl (noMinus _)
    | based announces => exact absurd rfl (noMark _ _ _ announces)
  · exact .unsigned

/-- A sign stands before a magnitude, which has none of its own. -/
theorem bare_signed_iff
    {sign : Char}
    (signed : sign = '+' ∨ sign = '-')
    {chars : List Char}
    {n : Binary64} :
    Bare (sign :: chars) n ↔ unsigned? (sign = '-') chars = some n := by
  rw [unsigned?_eq_some_iff]
  constructor
  · intro spelled
    cases spelled with
    | unsigned spelled =>
        rcases spelled.head with ⟨_, _, ⟨⟩, first⟩
        rcases signed with rfl | rfl <;> exact absurd first (by decide)
    | plus spelled => exact spelled
    | minus spelled => exact spelled
    | based => rcases signed with equal | equal <;> cases equal
  · intro spelled
    rcases signed with rfl | rfl
    · exact .plus spelled
    · exact .minus spelled

/-! ## Numerals -/

/-- The reader goes by what remains of a text without the blanks around it. -/
theorem lenient?_eq_some_iff_bare {text : List Char} {n : Binary64} :
    lenient? text = some n ↔ Bare (Text.trim text) n := by
  unfold lenient?
  split
  · next none =>
      rw [none]
      constructor
      · rintro ⟨⟩
        exact .empty
      · intro spelled
        cases spelled with
        | empty => rfl
        | unsigned spelled => rcases spelled.head with ⟨_, _, ⟨⟩, _⟩
  · next mark rest marked =>
      rw [marked]
      split_ifs with hexadecimal octal binary
      · exact (bare_based_iff (.hexadecimal (by simpa using hexadecimal))).symm
      · exact (bare_based_iff (.octal (by simpa using octal))).symm
      · exact (bare_based_iff (.binary (by simpa using binary))).symm
      · have noPlus : ∀ later, '0' :: mark :: rest ≠ '+' :: later := nofun
        have noMinus : ∀ later, '0' :: mark :: rest ≠ '-' :: later := nofun
        refine (bare_iff_of_unmarked (List.cons_ne_nil _ _) noPlus noMinus ?_).symm
        rintro _ base _ announces ⟨⟩
        cases announces with
        | hexadecimal either => exact hexadecimal (by simpa using either)
        | octal either => exact octal (by simpa using either)
        | binary either => exact binary (by simpa using either)
  · next rest signed =>
      rw [signed]
      exact (bare_signed_iff (.inr rfl)).symm
  · next rest signed =>
      rw [signed]
      exact (bare_signed_iff (.inl rfl)).symm
  · next filled unmarked noMinus noPlus =>
      refine (bare_iff_of_unmarked filled noPlus noMinus ?_).symm
      intro mark base rest _
      exact unmarked mark rest

/-- The lenient reader accepts the numerals of the grammar and no other words. -/
theorem lenient?_eq_some_iff {text : List Char} {n : Binary64} :
    lenient? text = some n ↔ Denotes text n := by
  rw [lenient?_eq_some_iff_bare]
  constructor
  · intro spelled
    rcases Text.exists_eq_append_trim text with ⟨before, after, whole, first, last⟩
    exact ⟨before, _, after, whole, first, last, spelled⟩
  · rintro ⟨before, bare, after, rfl, first, last, spelled⟩
    rwa [Text.trim_append first last spelled.isBlank_eq_false]

example : lenient? " 0x1F\t".toList = some 31 := by decide +kernel

example : lenient? "1e".toList = none := by decide +kernel

end ConvergentStore.Numeral
