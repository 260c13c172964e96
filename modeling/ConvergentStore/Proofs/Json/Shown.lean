import ConvergentStore.Json.Shown

/-!
# Values without a text

Almost every value is shown as some text. The exceptions are the objects whose
label cannot be put into a word, and what holds such an object: a label is put
into a word unless it is an object with a member `toString`, or an array that
holds one (`word?_eq_none_iff`, `shown?_eq_none_iff`).
-/

namespace ConvergentStore.Json

/-! ## Words -/

/-- A value that cannot be put into a word. -/
inductive Wordless : Json → Prop where
  | item {items : List Json} {item : Json} :
      item ∈ items → Wordless item → Wordless (.array items)
  | object {members : List (String × Json)} {own : Json} :
      member? "toString" members = some own → Wordless (.object members)

/-- Two results in turn are none when one of them is. -/
theorem both_eq_none_iff
    {α β γ : Type}
    {first : Option α}
    {second : Option β}
    {combine : α → β → γ} :
    (do
      let left ← first
      let right ← second
      return combine left right) = none ↔ first = none ∨ second = none := by
  cases first <;> cases second <;> simp

theorem wordItems?_cons (item : Json) (rest : List Json) :
    wordItems? (item :: rest) = none ↔ item.word? = none ∨ wordItems? rest = none := by
  cases item with
  | null => simp only [wordItems?, word?, Option.map_eq_none_iff, reduceCtorEq, false_or]
  | bool | number | text | array | object =>
      rw [wordItems?.eq_def]
      exact both_eq_none_iff

mutual

/-- The values without a word are those that cannot be put into one. -/
theorem word?_eq_none_iff : (value : Json) → (value.word? = none ↔ value.Wordless)
  | .null => ⟨nofun, nofun⟩
  | .bool value => ⟨nofun, nofun⟩
  | .number value => ⟨nofun, nofun⟩
  | .text value => ⟨nofun, nofun⟩
  | .array items => by
      rw [word?, Option.map_eq_none_iff, wordItems?_eq_none_iff items]
      constructor
      · rintro ⟨item, among, wordless⟩
        exact .item among wordless
      · rintro (⟨among, wordless⟩ | _)
        exact ⟨_, among, wordless⟩
  | .object members => by
      rw [word?]
      constructor
      · intro none
        split at none
        · next own =>
            rcases Option.isSome_iff_exists.mp own with ⟨value, found⟩
            exact .object found
        · cases none
      · rintro (_ | found)
        simp [found]

theorem wordItems?_eq_none_iff :
    (items : List Json) → (wordItems? items = none ↔ ∃ item ∈ items, item.Wordless)
  | [] => by simp [wordItems?]
  | item :: rest => by
      rw [wordItems?_cons, word?_eq_none_iff item, wordItems?_eq_none_iff rest]
      simp

end

/-! ## Texts -/

/-- A value that has no text. -/
inductive Textless : Json → Prop where
  | item {items : List Json} {item : Json} :
      item ∈ items → Textless item → Textless (.array items)
  | member {members : List (String × Json)} {key : String} {value : Json} :
      (key, value) ∈ members → Textless value → Textless (.object members)
  | label {members described : List (String × Json)} {name : Json} :
      member? "constructor" members = some (.object described) →
      member? "name" described = some name →
      Wordless name → Textless (.object members)

/-- An object bears a label that cannot be put into a word when its description names one. -/
theorem exists_label?_wordless_iff {members : List (String × Json)} :
    (∃ label, label? members = some label ∧ label.Wordless) ↔
      ∃ described name, member? "constructor" members = some (.object described) ∧
        member? "name" described = some name ∧ name.Wordless := by
  constructor
  · rintro ⟨label, borne, wordless⟩
    rw [label?] at borne
    split at borne
    · next described found =>
        rcases Option.filter_eq_some_iff.mp borne with ⟨named, _⟩
        exact ⟨described, label, found, named, wordless⟩
    · cases borne
  · rintro ⟨described, name, found, named, wordless⟩
    refine ⟨name, ?_, wordless⟩
    have given : name.isGiven = true := by cases wordless <;> rfl
    simp [label?, found, named, given]

mutual

/-- The values that are not shown are those that have no text. -/
theorem shown?_eq_none_iff : (value : Json) → (value.shown? = none ↔ value.Textless)
  | .null => ⟨nofun, nofun⟩
  | .bool value => ⟨nofun, nofun⟩
  | .number value => ⟨nofun, nofun⟩
  | .text value => ⟨nofun, nofun⟩
  | .array items => by
      rw [shown?, Option.map_eq_none_iff, shownItems?_eq_none_iff items]
      constructor
      · rintro ⟨item, among, textless⟩
        exact .item among textless
      · rintro (⟨among, textless⟩ | _ | _)
        exact ⟨_, among, textless⟩
  | .object members => by
      have unlabelled : ∀ plain, labelled? (label? members) plain = none ↔
          ∃ label, label? members = some label ∧ label.Wordless := by
        intro plain
        cases label? members with
        | none => simp [labelled?]
        | some label => simp [labelled?, word?_eq_none_iff]
      rw [shown?]
      constructor
      · intro none
        cases texts : shownMembers? members with
        | none =>
            rcases (shownMembers?_eq_none_iff members).mp texts with ⟨_, among, textless⟩
            exact .member among textless
        | some texts =>
            rw [texts] at none
            rcases exists_label?_wordless_iff.mp ((unlabelled _).mp none) with
              ⟨described, name, found, named, wordless⟩
            exact .label found named wordless
      · rintro (_ | ⟨among, textless⟩ | ⟨found, named, wordless⟩)
        · rw [(shownMembers?_eq_none_iff members).mpr ⟨_, among, textless⟩]
          rfl
        · cases texts : shownMembers? members with
          | none => rfl
          | some texts =>
              exact (unlabelled _).mpr (exists_label?_wordless_iff.mpr
                ⟨_, _, found, named, wordless⟩)

theorem shownItems?_eq_none_iff :
    (items : List Json) → (shownItems? items = none ↔ ∃ item ∈ items, item.Textless)
  | [] => by simp [shownItems?]
  | item :: rest => by
      rw [shownItems?, both_eq_none_iff, shown?_eq_none_iff item, shownItems?_eq_none_iff rest]
      simp

theorem shownMembers?_eq_none_iff :
    (members : List (String × Json)) →
      (shownMembers? members = none ↔ ∃ member ∈ members, member.2.Textless)
  | [] => by simp [shownMembers?]
  | (key, value) :: rest => by
      rw [shownMembers?, both_eq_none_iff, shown?_eq_none_iff value,
        shownMembers?_eq_none_iff rest]
      simp

end

end ConvergentStore.Json
