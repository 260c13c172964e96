import ConvergentStore.Proofs.Text.Separator
import ConvergentStore.Text.Quoted
import Mathlib.Data.List.Basic
import Mathlib.Order.Nat

/-!
# Reading quoted text back

Every text is read back from its quoted form, whatever follows the closing
quote. The proof goes character by character: each written form is read as one
element, and the elements of a text are put together to the text again.
Characters that need no escape stand in the quoted form of a text exactly when
they stand in the text (`infix_flatMap_escape_iff`).
-/

namespace ConvergentStore.Text.Quoted

/-! ## Elements -/

/-- What is read once one more element has been read before it. -/
def preceded (element : Element) (read : Option (List Element × List Char)) :
    Option (List Element × List Char) :=
  read.map fun (elements, after) => (element :: elements, after)

theorem elements?_letter {letter c : Char} (named : letterEscape? letter = some c)
    (rest : List Char) :
    elements? ('\\' :: letter :: rest) = preceded (.character c) (elements? rest) := by
  have notUnit : letter ≠ 'u' := by
    rintro rfl
    revert named
    simp [letterEscape?]
  rw [elements?]
  · rw [named]
    cases elements? rest <;> rfl
  · intro _ _ _ _ _ unit _
    exact notUnit unit

theorem elements?_unit {a b c d : Char} {code : Nat} (unit : unit? a b c d = some code)
    (rest : List Char) :
    elements? ('\\' :: 'u' :: a :: b :: c :: d :: rest) =
      preceded (.unit code) (elements? rest) := by
  rw [elements?, unit]
  cases elements? rest <;> rfl

theorem elements?_character {c : Char} (notQuote : c ≠ '"') (notBackslash : c ≠ '\\')
    (notControl : ¬ c < ' ') (rest : List Char) :
    elements? (c :: rest) = preceded (.character c) (elements? rest) := by
  rw [elements?]
  · rw [if_neg notControl]
    cases elements? rest <;> rfl
  · exact notQuote
  · intro _ _ _ _ _ backslash _
    exact notBackslash backslash
  · intro _ _ backslash _
    exact notBackslash backslash

/-- A code unit that is no half of a pair stands for its character, whatever follows. -/
theorem assemble_unit {code : Nat} (single : isHigh code = false) (elements : List Element) :
    assemble (.unit code :: elements) = characterOf code :: assemble elements := by
  cases elements with
  | nil => simp [assemble]
  | cons next rest =>
      cases next with
      | unit low => simp [assemble, single]
      | character c => simp [assemble]

/-! ## Written characters -/

theorem hexValue?_hexDigit {n : Nat} (small : n < 16) : hexValue? (hexDigit n) = some n := by
  revert n
  decide

/-- The code of a control character is read back from its two last digits. -/
theorem unit?_hexDigit {code : Nat} (small : code < 0x20) :
    unit? '0' '0' (hexDigit (code / 16)) (hexDigit (code % 16)) = some code := by
  have zero : hexValue? '0' = some 0 := hexValue?_hexDigit (n := 0) (by decide)
  have upper : hexValue? (hexDigit (code / 16)) = some (code / 16) :=
    hexValue?_hexDigit (by omega)
  have lower : hexValue? (hexDigit (code % 16)) = some (code % 16) :=
    hexValue?_hexDigit (by omega)
  simp only [unit?, zero, upper, lower, Option.some.injEq]
  omega

/-- The element of a character is read from a written form of it, and stands for it. -/
structure ReadAs (form : List Char) (c : Char) (element : Element) : Prop where
  read : ∀ rest, elements? (form ++ rest) = preceded element (elements? rest)
  stands : ∀ elements, assemble (element :: elements) = c :: assemble elements

theorem readAs_letter {letter c : Char} (named : letterEscape? letter = some c) :
    ReadAs ['\\', letter] c (.character c) :=
  ⟨elements?_letter named, fun _ => by simp [assemble]⟩

theorem readAs_control {c : Char} (control : c < ' ') :
    ReadAs ['\\', 'u', '0', '0', hexDigit (c.toNat / 16), hexDigit (c.toNat % 16)] c
      (.unit c.toNat) := by
  have small : c.toNat < 0x20 := control
  have single : isHigh c.toNat = false := by
    simp only [isHigh, Bool.and_eq_false_iff, decide_eq_false_iff_not]
    omega
  refine ⟨elements?_unit (unit?_hexDigit small), ?_⟩
  intro elements
  rw [assemble_unit single, characterOf_toNat]

/-- Every character is read back from its written form. -/
theorem readAs_escape (c : Char) : ∃ element, ReadAs (escape c) c element := by
  unfold escape
  split
  · next quote => subst quote; exact ⟨_, readAs_letter rfl⟩
  split
  · next backslash => subst backslash; exact ⟨_, readAs_letter rfl⟩
  split
  · next backspace => subst backspace; exact ⟨_, readAs_letter rfl⟩
  split
  · next tab => subst tab; exact ⟨_, readAs_letter rfl⟩
  split
  · next newline => subst newline; exact ⟨_, readAs_letter rfl⟩
  split
  · next feed => subst feed; exact ⟨_, readAs_letter rfl⟩
  split
  · next carriage => subst carriage; exact ⟨_, readAs_letter rfl⟩
  split
  · next control => exact ⟨_, readAs_control control⟩
  · next notQuote notBackslash _ _ _ _ _ notControl =>
      exact ⟨.character c, elements?_character notQuote notBackslash notControl,
        fun _ => by simp [assemble]⟩

/-! ## Written texts -/

theorem elements?_flatMap_escape (text rest : List Char) :
    ∃ elements, elements? (text.flatMap escape ++ '"' :: rest) = some (elements, rest) ∧
      assemble elements = text := by
  induction text with
  | nil => exact ⟨[], by simp [elements?], by simp [assemble]⟩
  | cons c text ih =>
      rcases ih with ⟨elements, read, stands⟩
      rcases readAs_escape c with ⟨element, form⟩
      refine ⟨element :: elements, ?_, ?_⟩
      · rw [List.flatMap_cons, List.append_assoc, form.read, read]
        rfl
      · rw [form.stands, stands]

/-- A text is read back from its quoted form; the opening quote has been read already. -/
theorem decode?_flatMap_escape (text rest : List Char) :
    decode? (text.flatMap escape ++ '"' :: rest) = some (text, rest) := by
  rcases elements?_flatMap_escape text rest with ⟨elements, read, stands⟩
  simp only [decode?, read, stands, Option.map_some]

/-! ## Stretches of written texts -/

/-- The characters that written forms are made of, apart from characters written as themselves. -/
def formChars : List Char := "\\\"bfnrtu0123456789abcdef".toList

theorem hexDigit_mem_formChars {n : Nat} (small : n < 16) : hexDigit n ∈ formChars := by
  revert n
  decide

theorem mem_escape {c other : Char} (member : c ∈ escape other) : c = other ∨ c ∈ formChars := by
  unfold escape at member
  have letter : ∀ named ∈ formChars, c ∈ ['\\', named] → c ∈ formChars := by
    intro named form among
    rcases List.mem_cons.mp among with rfl | last
    · decide
    · rw [List.mem_singleton.mp last]
      exact form
  split at member
  · exact .inr (letter '"' (by decide) member)
  split at member
  · exact .inr (letter '\\' (by decide) member)
  split at member
  · exact .inr (letter 'b' (by decide) member)
  split at member
  · exact .inr (letter 't' (by decide) member)
  split at member
  · exact .inr (letter 'n' (by decide) member)
  split at member
  · exact .inr (letter 'f' (by decide) member)
  split at member
  · exact .inr (letter 'r' (by decide) member)
  split at member
  · next control =>
      have small : other.toNat < 0x20 := control
      have upper : hexDigit (other.toNat / 16) ∈ formChars := hexDigit_mem_formChars (by omega)
      have lower : hexDigit (other.toNat % 16) ∈ formChars := hexDigit_mem_formChars (by omega)
      right
      simp only [List.mem_cons, List.not_mem_nil, or_false] at member
      rcases member with rfl | rfl | rfl | rfl | rfl | rfl
      · decide
      · decide
      · decide
      · decide
      · exact upper
      · exact lower
  · exact .inl (List.mem_singleton.mp member)

/-- Characters are plain when each is written as itself and is in no other written form. -/
def Plain (part : List Char) : Prop :=
  ∀ c ∈ part, escape c = [c] ∧ c ∉ formChars

theorem Plain.eq_of_mem_escape {part : List Char} (plain : Plain part) {c other : Char}
    (among : c ∈ part) (member : c ∈ escape other) :
    c = other :=
  (mem_escape member).resolve_right (plain c among).2

theorem escape_ne_nil (c : Char) : escape c ≠ [] := by
  unfold escape
  repeat' split
  all_goals exact List.cons_ne_nil _ _

theorem prefix_of_prefix_flatMap_escape {part text : List Char} (plain : Plain part)
    (stands : part <+: text.flatMap escape) :
    part <+: text := by
  induction part generalizing text with
  | nil => exact List.nil_prefix
  | cons c part ih =>
      cases text with
      | nil => exact absurd (List.prefix_nil.mp stands) (List.cons_ne_nil _ _)
      | cons d text =>
          rw [List.flatMap_cons] at stands
          have first : c ∈ escape d := by
            cases form : escape d with
            | nil => exact absurd form (escape_ne_nil d)
            | cons e rest =>
                rw [form, List.cons_append, List.cons_prefix_cons] at stands
                exact stands.1 ▸ List.mem_cons_self
          have same := plain.eq_of_mem_escape List.mem_cons_self first
          subst same
          rw [(plain c List.mem_cons_self).1, List.singleton_append, List.cons_prefix_cons] at stands
          exact List.cons_prefix_cons.mpr
            ⟨rfl, ih (fun e among => plain e (List.mem_cons_of_mem _ among)) stands.2⟩

/-- Plain characters stand in a written text exactly when they stand in the text. -/
theorem infix_flatMap_escape_iff {part : List Char} (plain : Plain part) (text : List Char) :
    part <:+: text.flatMap escape ↔ part <:+: text := by
  constructor
  · intro stands
    induction text with
    | nil => exact stands
    | cons d text ih =>
        cases part with
        | nil => exact List.nil_infix
        | cons c part =>
            by_cases among : d ∈ c :: part
            · have written : (d :: text).flatMap escape = d :: text.flatMap escape := by
                rw [List.flatMap_cons, (plain d among).1, List.singleton_append]
              rw [written, List.infix_cons_iff, ← written] at stands
              rcases stands with here | later
              · exact (prefix_of_prefix_flatMap_escape plain here).isInfix
              · exact List.infix_cons (ih later)
            · have absent : c ∉ escape d := fun member =>
                among (plain.eq_of_mem_escape List.mem_cons_self member ▸ List.mem_cons_self)
              rw [List.flatMap_cons, infix_append_iff_of_not_mem absent] at stands
              exact List.infix_cons (ih stands)
  · rintro ⟨before, after, rfl⟩
    have written : part.flatMap escape = part := by
      rw [List.flatMap_congr fun c among => (plain c among).1, List.flatMap_singleton']
    exact ⟨before.flatMap escape, after.flatMap escape, by
      rw [List.flatMap_append, List.flatMap_append, written]⟩

end ConvergentStore.Text.Quoted
