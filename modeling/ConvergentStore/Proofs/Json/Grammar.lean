import ConvergentStore.Proofs.Json.Members
import ConvergentStore.Proofs.Json.Reader
import ConvergentStore.Proofs.Number.Grammar
import ConvergentStore.Proofs.Text.Grammar

/-!
# The grammar of JSON documents

The documents of JSON, production by production: a value among blanks, where an
array and an object hold their items and members between marks with blanks
around them. A document has a source, which keeps every member of its objects
as it is written, and denotes the source's value, in which the last member
under each key prevails.

`parse?_eq_some_iff` says that the documents of the grammar are read as the
values that they denote, and that nothing else is read. One direction goes down
the derivation of a document, the other one down the source that the reader
has found for the tokens of a text.
-/

namespace ConvergentStore.Json

/-! ## Words -/

/-- Every character of a row is a blank. -/
def Blanks (row : List Char) : Prop :=
  ∀ c ∈ row, Token.isBlank c = true

/-- A token as it is written. -/
inductive Token.Spells : List Char → Token → Prop where
  | null : Spells "null".toList .null
  | true : Spells "true".toList (.bool true)
  | false : Spells "false".toList (.bool false)
  | mark {c : Char} {token : Token} : mark? c = some token → Spells [c] token
  | number {own : List Char} {n : Binary64} :
      Numeral.Spells own n → Spells own (.number n)
  | text {own content : List Char} :
      Text.Quoted.Spells own content →
      Spells ('"' :: (own ++ ['"'])) (.text (String.ofList content))

/-! ## Productions -/

mutual

/-- A value as it is written, without blanks around it. -/
inductive Spells : List Char → Json → Prop where
  | null : Spells "null".toList .null
  | true : Spells "true".toList (.bool true)
  | false : Spells "false".toList (.bool false)
  | number {own : List Char} {n : Binary64} :
      Numeral.Spells own n → Spells own (.number n)
  | text {own content : List Char} :
      Text.Quoted.Spells own content →
      Spells ('"' :: (own ++ ['"'])) (.text (String.ofList content))
  | emptyArray {between : List Char} :
      Blanks between → Spells ('[' :: (between ++ [']'])) (.array [])
  | array {before own later after : List Char} {first : Json} {rest : List Json} :
      Blanks before → Spells own first → SpellsItems later rest → Blanks after →
      Spells ('[' :: (before ++ (own ++ (later ++ (after ++ [']']))))) (.array (first :: rest))
  | emptyObject {between : List Char} :
      Blanks between → Spells ('\x7b' :: (between ++ ['\x7d'])) (.object [])
  | object {before own later after : List Char} {first : String × Json}
      {rest : List (String × Json)} :
      Blanks before → SpellsMember own first → SpellsMembers later rest → Blanks after →
      Spells ('\x7b' :: (before ++ (own ++ (later ++ (after ++ ['\x7d'])))))
        (.object (first :: rest))

/-- Items as they are written after another one, each behind a comma. -/
inductive SpellsItems : List Char → List Json → Prop where
  | nil : SpellsItems [] []
  | cons {before after own later : List Char} {item : Json} {rest : List Json} :
      Blanks before → Blanks after → Spells own item → SpellsItems later rest →
      SpellsItems (before ++ ',' :: (after ++ (own ++ later))) (item :: rest)

/-- A member as it is written: a quoted key, a colon and a value. -/
inductive SpellsMember : List Char → String × Json → Prop where
  | keyed {name key before after own : List Char} {value : Json} :
      Text.Quoted.Spells name key → Blanks before → Blanks after → Spells own value →
      SpellsMember ('"' :: (name ++ ['"']) ++ (before ++ ':' :: (after ++ own)))
        (String.ofList key, value)

/-- Members as they are written after another one, each behind a comma. -/
inductive SpellsMembers : List Char → List (String × Json) → Prop where
  | nil : SpellsMembers [] []
  | cons {before after own later : List Char} {member : String × Json}
      {rest : List (String × Json)} :
      Blanks before → Blanks after → SpellsMember own member → SpellsMembers later rest →
      SpellsMembers (before ++ ',' :: (after ++ (own ++ later))) (member :: rest)

end

/-- A document that has the given source: the source as it is written, among blanks. -/
inductive Writes : String → Json → Prop where
  | among {document : String} {before own after : List Char} {source : Json} :
      document.toList = before ++ (own ++ after) →
      Blanks before → Spells own source → Blanks after → Writes document source

/-- A document that denotes the given value. -/
def Denotes (document : String) (value : Json) : Prop :=
  ∃ source, Writes document source ∧ source.merged = value

/-! ## Marks -/

namespace Token

/-- The character that a mark is written as. -/
def markChar? : Token → Option Char
  | .openObject => some '\x7b'
  | .closeObject => some '\x7d'
  | .openArray => some '['
  | .closeArray => some ']'
  | .colon => some ':'
  | .comma => some ','
  | _ => none

theorem mark?_eq_some_iff {c : Char} {token : Token} :
    mark? c = some token ↔ token.markChar? = some c := by
  constructor
  · intro mark
    unfold mark? at mark
    repeat' split at mark
    all_goals cases mark
    all_goals simp_all [markChar?]
  · intro written
    cases token <;> cases written <;> rfl

/-- A mark is written as its character and as nothing else. -/
theorem Spells.eq_mark
    {c : Char}
    {own : List Char}
    {token : Token}
    (spelled : Spells own token)
    (mark : token.markChar? = some c) :
    own = [c] := by
  cases spelled with
  | mark other => rw [Option.some.inj ((mark?_eq_some_iff.mp other).symm.trans mark)]
  | null | true | false | number | text => cases mark

/-! ## Reading words -/

theorem blanks_of_scan?_nil {chars : List Char} (read : scan? chars = some []) :
    Blanks chars := by
  fun_induction scan? chars with
  | case1 => exact nofun
  | case2 c rest blank ih =>
      intro d member
      rcases List.mem_cons.mp member with rfl | later
      · exact blank
      · exact ih read d later
  | case3 => simp at read
  | case4 => cases read

theorem spells_of_ofWord? {word : List Char} {token : Token} (read : ofWord? word = some token) :
    Spells word token := by
  unfold ofWord? at read
  split at read
  · next constant =>
      cases read
      rw [constant]
      exact .null
  split at read
  · next constant =>
      cases read
      rw [constant]
      exact .true
  split at read
  · next constant =>
      cases read
      rw [constant]
      exact .false
  · rcases Option.map_eq_some_iff.mp read with ⟨n, number, rfl⟩
    exact .number (Numeral.strict?_eq_some_iff.mp number)

/-- The first token of a text is written at its beginning. -/
theorem spells_of_first? {c : Char} {rest after : List Char} {token : Token}
    (read : first? c rest = some (token, after)) :
    ∃ own, c :: rest = own ++ after ∧ Spells own token := by
  unfold first? at read
  split at read
  · next quote =>
      subst quote
      rcases Option.map_eq_some_iff.mp read with ⟨⟨content, tail⟩, quoted, equal⟩
      cases equal
      rcases Text.Quoted.decode?_eq_some_iff.mp quoted with ⟨own, rfl, spelled⟩
      exact ⟨_, by simp, .text spelled⟩
  split at read
  · next mark =>
      cases read
      exact ⟨[c], rfl, .mark mark⟩
  · rcases Option.map_eq_some_iff.mp read with ⟨found, word, equal⟩
    cases equal
    refine ⟨c :: rest.takeWhile isWordChar, ?_, spells_of_ofWord? word⟩
    rw [List.cons_append, List.takeWhile_append_dropWhile]

/-- A text that has a first token is that token as it is written, after blanks. -/
theorem spells_of_scan?_cons {chars : List Char} {token : Token} {more : List Token}
    (read : scan? chars = some (token :: more)) :
    ∃ before own after, chars = before ++ (own ++ after) ∧ Blanks before ∧ Spells own token ∧
      scan? after = some more := by
  fun_induction scan? chars with
  | case1 => cases read
  | case2 c rest blank ih =>
      rcases ih read with ⟨before, own, after, rfl, blanks, spelled, later⟩
      refine ⟨c :: before, own, after, rfl, ?_, spelled, later⟩
      intro d member
      rcases List.mem_cons.mp member with rfl | among
      · exact blank
      · exact blanks d among
  | case3 c rest filled found after first ih =>
      rcases Option.map_eq_some_iff.mp read with ⟨tokens, later, equal⟩
      cases equal
      rcases spells_of_first? first with ⟨own, split, spelled⟩
      exact ⟨[], own, after, split, nofun, spelled, later⟩
  | case4 => cases read

/-- A text whose first token is a mark is the mark, after blanks. -/
theorem mark_of_scan?_cons {chars : List Char} {token : Token} {more : List Token} {c : Char}
    (mark : token.markChar? = some c) (read : scan? chars = some (token :: more)) :
    ∃ before after, chars = before ++ c :: after ∧ Blanks before ∧ scan? after = some more := by
  rcases spells_of_scan?_cons read with ⟨before, own, after, rfl, blanks, spelled, later⟩
  rw [spelled.eq_mark mark]
  exact ⟨before, after, rfl, blanks, later⟩

/-! ## Written words -/

/-- The characters of a numeral belong to words. -/
theorem isWordChar_of_numeral {own : List Char} {n : Binary64} (spelled : Numeral.Spells own n) :
    ∀ c ∈ own, isWordChar c = true := by
  have signs : Numeral.signs.all isWordChar = true := by decide
  intro c member
  rcases spelled.mem c member with digit | sign
  · exact isWordChar_of_isDigit digit
  · exact List.all_eq_true.mp signs c sign

theorem ofWord?_of_numeral {own : List Char} {n : Binary64} (spelled : Numeral.Spells own n) :
    ofWord? own = some (.number n) := by
  have read := Numeral.strict?_eq_some_iff.mpr spelled
  rcases spelled.head with ⟨first, rest, rfl, begins⟩
  -- No constant begins as a numeral does.
  have other : ∀ letter later, letter ≠ '-' → letter.isDigit = false →
      first :: rest ≠ letter :: later := by
    rintro letter later notMinus notDigit ⟨⟩
    rcases begins with rfl | digit
    · exact notMinus rfl
    · exact nomatch digit.symm.trans notDigit
  have notNull : first :: rest ≠ "null".toList := other 'n' _ (by decide) (by decide)
  have notTrue : first :: rest ≠ "true".toList := other 't' _ (by decide) (by decide)
  have notFalse : first :: rest ≠ "false".toList := other 'f' _ (by decide) (by decide)
  simp only [ofWord?, notNull, notTrue, notFalse, ↓reduceIte, read, Option.map_some]

/-- A token is scanned from the way it is written. -/
theorem Spells.scannedAs {own : List Char} {token : Token} (spelled : Spells own token) :
    ScannedAs own [token] := by
  cases spelled with
  | null | true | false => exact scannedAs_word (by decide) (by decide)
  | mark mark => exact scannedAs_mark mark
  | number numeral =>
      have all := isWordChar_of_numeral numeral
      have known := ofWord?_of_numeral numeral
      rcases numeral.head with ⟨first, rest, rfl, _⟩
      exact scannedAs_word (List.all_eq_true.mpr all) known
  | @text own content quoted =>
      intro rest _
      have read : Text.Quoted.decode? (own ++ '"' :: rest) = some (content, rest) :=
        Text.Quoted.decode?_eq_some_iff.mpr ⟨own, rfl, quoted⟩
      rw [List.cons_append, List.append_assoc, List.singleton_append]
      refine scan?_of_first? (by decide) ?_
      simp only [first?, ↓reduceIte, read, Option.map_some]

end Token

theorem Blanks.scan? {before : List Char} (blanks : Blanks before) (rest : List Char) :
    Token.scan? (before ++ rest) = Token.scan? rest := by
  induction before with
  | nil => rfl
  | cons c before ih =>
      have blank : Token.isBlank c = true := blanks c List.mem_cons_self
      rw [List.cons_append, Token.scan?, if_pos blank]
      exact ih fun d among => blanks d (List.mem_cons_of_mem _ among)

theorem Blanks.append_scannedAs
    {before own : List Char}
    {tokens : List Token}
    (blanks : Blanks before)
    (scanned : ScannedAs own tokens) :
    ScannedAs (before ++ own) tokens := by
  intro rest ends
  rw [List.append_assoc, blanks.scan?, scanned rest ends]

/-- Whatever follows, no word goes on into the text. -/
def Severs (chars : List Char) : Prop :=
  ∀ rest, Token.EndsWord rest → Token.EndsWord (chars ++ rest)

theorem severs_mark {c : Char} {token : Token} (mark : Token.mark? c = some token)
    (chars : List Char) : Severs (c :: chars) := by
  intro rest _
  exact endsWord_cons_mark mark _

theorem Severs.append {first second : List Char} (left : Severs first) (right : Severs second) :
    Severs (first ++ second) := by
  intro rest ends
  rw [List.append_assoc]
  exact left _ (right rest ends)

theorem Blanks.severs {row : List Char} (blanks : Blanks row) : Severs row := by
  intro rest ends
  cases row with
  | nil => exact ends
  | cons c row =>
      rintro _ ⟨⟩
      have blank : Token.isBlank c = true := blanks c List.mem_cons_self
      simp [Token.isWordChar, blank]

theorem SpellsItems.severs {own : List Char} {items : List Json}
    (spelled : SpellsItems own items) : Severs own := by
  cases spelled with
  | nil => exact fun _ ends => ends
  | cons before => exact before.severs.append (severs_mark (c := ',') rfl _)

theorem SpellsMembers.severs {own : List Char} {members : List (String × Json)}
    (spelled : SpellsMembers own members) : Severs own := by
  cases spelled with
  | nil => exact fun _ ends => ends
  | cons before => exact before.severs.append (severs_mark (c := ',') rfl _)

mutual

/-- A value is scanned as its tokens from every way in which it can be written. -/
theorem Spells.scannedAs {own : List Char} {value : Json} (spelled : Spells own value) :
    ScannedAs own value.tokens := by
  match spelled with
  | .null => rw [tokens]; exact Token.Spells.null.scannedAs
  | .true => rw [tokens]; exact Token.Spells.true.scannedAs
  | .false => rw [tokens]; exact Token.Spells.false.scannedAs
  | .number numeral => rw [tokens]; exact (Token.Spells.number numeral).scannedAs
  | .text quoted => rw [tokens]; exact (Token.Spells.text quoted).scannedAs
  | .emptyArray between =>
      rw [tokens]
      exact (between.append_scannedAs (scannedAs_mark rfl)).mark_append rfl
  | .array before first rest after =>
      rw [tokens]
      have closing := after.append_scannedAs (scannedAs_mark (c := ']') rfl)
      have severs := after.severs.append (severs_mark (c := ']') rfl [])
      refine (before.append_scannedAs ?_).mark_append rfl
      exact first.scannedAs.append (rest.scannedAs.append closing severs)
        (rest.severs.append severs)
  | .emptyObject between =>
      rw [tokens]
      exact (between.append_scannedAs (scannedAs_mark rfl)).mark_append rfl
  | @Spells.object _ _ _ _ (key, value) _ before first rest after =>
      rw [tokens]
      have closing := after.append_scannedAs (scannedAs_mark (c := '\x7d') rfl)
      have severs := after.severs.append (severs_mark (c := '\x7d') rfl [])
      refine (before.append_scannedAs ?_).mark_append rfl
      exact first.scannedAs.append (rest.scannedAs.append closing severs)
        (rest.severs.append severs)

theorem SpellsItems.scannedAs {own : List Char} {items : List Json}
    (spelled : SpellsItems own items) : ScannedAs own (itemTokens items) := by
  match spelled with
  | .nil => rw [itemTokens]; exact scannedAs_nil
  | .cons before after item rest =>
      rw [itemTokens]
      refine before.append_scannedAs (ScannedAs.mark_append rfl (after.append_scannedAs ?_))
      exact item.scannedAs.append rest.scannedAs rest.severs

theorem SpellsMember.scannedAs {own : List Char} {member : String × Json}
    (spelled : SpellsMember own member) :
    ScannedAs own (.text member.1 :: .colon :: member.2.tokens) := by
  match spelled with
  | .keyed quoted before after value =>
      have later := (after.append_scannedAs value.scannedAs).mark_append (c := ':') rfl
      exact (Token.Spells.text quoted).scannedAs.append (before.append_scannedAs later)
        (before.severs.append (severs_mark (c := ':') rfl _))

theorem SpellsMembers.scannedAs {own : List Char} {members : List (String × Json)}
    (spelled : SpellsMembers own members) : ScannedAs own (memberTokens members) := by
  match spelled with
  | .nil => rw [memberTokens]; exact scannedAs_nil
  | @SpellsMembers.cons _ _ _ _ (key, value) _ before after member rest =>
      rw [memberTokens]
      refine before.append_scannedAs (ScannedAs.mark_append rfl (after.append_scannedAs ?_))
      exact member.scannedAs.append rest.scannedAs rest.severs

end

/-! ## What the reader accepts -/

/-- A token that is a value by itself is written as the value is. -/
theorem spells_of_token
    {own : List Char}
    {token : Token}
    {value : Json}
    (single : value.tokens = [token])
    (spelled : Token.Spells own token) :
    Spells own value := by
  match value with
  | .null =>
      rw [tokens] at single
      cases single
      cases spelled with
      | null => exact .null
      | mark other => cases Token.mark?_eq_some_iff.mp other
  | .bool _ =>
      rw [tokens] at single
      cases single
      cases spelled with
      | true => exact .true
      | false => exact .false
      | mark other => cases Token.mark?_eq_some_iff.mp other
  | .number _ =>
      rw [tokens] at single
      cases single
      cases spelled with
      | number numeral => exact .number numeral
      | mark other => cases Token.mark?_eq_some_iff.mp other
  | .text _ =>
      rw [tokens] at single
      cases single
      cases spelled with
      | text quoted => exact .text quoted
      | mark other => cases Token.mark?_eq_some_iff.mp other
  | .array [] | .object [] => rw [tokens] at single; cases single
  | .array (_ :: _) | .object (_ :: _) => rw [tokens] at single; simp at single

/-- A text whose tokens begin with a key and its value is the member, after blanks. -/
theorem spellsMember_of_scan?
    {chars : List Char}
    {key : String}
    {value : Json}
    {more : List Token}
    (read : Token.scan? chars = some (.text key :: .colon :: (value.tokens ++ more)))
    (inner : ∀ rest, Token.scan? rest = some (value.tokens ++ more) →
      ∃ before own after, rest = before ++ (own ++ after) ∧ Blanks before ∧ Spells own value ∧
        Token.scan? after = some more) :
    ∃ before own after, chars = before ++ (own ++ after) ∧ Blanks before ∧
      SpellsMember own (key, value) ∧ Token.scan? after = some more := by
  rcases Token.spells_of_scan?_cons read with ⟨before, name, rest, rfl, blanks, spelled, later⟩
  rcases Token.mark_of_scan?_cons rfl later with ⟨between, rest, rfl, apart, later⟩
  rcases inner rest later with ⟨inside, own, after, rfl, within, value, later⟩
  cases spelled with
  | mark other => cases Token.mark?_eq_some_iff.mp other
  | text quoted =>
      exact ⟨before, _, after, by simp, blanks, .keyed quoted apart within value, later⟩

mutual

/-- A text whose tokens begin with those of a value is the value, after blanks. -/
theorem spells_of_scan? (value : Json) {chars : List Char} {more : List Token}
    (read : Token.scan? chars = some (value.tokens ++ more)) :
    ∃ before own after, chars = before ++ (own ++ after) ∧ Blanks before ∧ Spells own value ∧
      Token.scan? after = some more := by
  match value with
  | .null | .bool _ | .number _ | .text _ =>
      rw [tokens] at read
      rcases Token.spells_of_scan?_cons read with ⟨before, own, after, rfl, blanks, spelled, read⟩
      exact ⟨before, own, after, rfl, blanks, spells_of_token (by rw [tokens]) spelled, read⟩
  | .array [] =>
      rw [tokens] at read
      rcases Token.mark_of_scan?_cons rfl read with ⟨before, rest, rfl, blanks, read⟩
      rcases Token.mark_of_scan?_cons rfl read with ⟨between, after, rfl, apart, read⟩
      exact ⟨before, _, after, by simp, blanks, .emptyArray apart, read⟩
  | .array (first :: rest) =>
      rw [tokens] at read
      simp only [List.cons_append, List.append_assoc, List.nil_append] at read
      rcases Token.mark_of_scan?_cons rfl read with ⟨before, inner, rfl, blanks, read⟩
      rcases spells_of_scan? first read with ⟨inside, own, inner, rfl, within, spelled, read⟩
      rcases spellsItems_of_scan? rest read with ⟨later, inner, rfl, items, read⟩
      rcases Token.mark_of_scan?_cons rfl read with ⟨last, after, rfl, final, read⟩
      exact ⟨before, _, after, by simp, blanks, .array within spelled items final, read⟩
  | .object [] =>
      rw [tokens] at read
      rcases Token.mark_of_scan?_cons rfl read with ⟨before, rest, rfl, blanks, read⟩
      rcases Token.mark_of_scan?_cons rfl read with ⟨between, after, rfl, apart, read⟩
      exact ⟨before, _, after, by simp, blanks, .emptyObject apart, read⟩
  | .object ((key, value) :: rest) =>
      rw [tokens] at read
      simp only [List.cons_append, List.append_assoc, List.nil_append] at read
      rcases Token.mark_of_scan?_cons rfl read with ⟨before, inner, rfl, blanks, read⟩
      rcases spellsMember_of_scan? read fun _ => spells_of_scan? value
        with ⟨inside, own, inner, rfl, within, spelled, read⟩
      rcases spellsMembers_of_scan? rest read with ⟨later, inner, rfl, members, read⟩
      rcases Token.mark_of_scan?_cons rfl read with ⟨last, after, rfl, final, read⟩
      exact ⟨before, _, after, by simp, blanks, .object within spelled members final, read⟩

theorem spellsItems_of_scan? (items : List Json) {chars : List Char} {more : List Token}
    (read : Token.scan? chars = some (itemTokens items ++ more)) :
    ∃ own after, chars = own ++ after ∧ SpellsItems own items ∧
      Token.scan? after = some more := by
  match items with
  | [] =>
      rw [itemTokens] at read
      exact ⟨[], chars, rfl, .nil, read⟩
  | item :: rest =>
      rw [itemTokens] at read
      simp only [List.cons_append, List.append_assoc] at read
      rcases Token.mark_of_scan?_cons rfl read with ⟨before, inner, rfl, blanks, read⟩
      rcases spells_of_scan? item read with ⟨inside, own, inner, rfl, within, spelled, read⟩
      rcases spellsItems_of_scan? rest read with ⟨later, after, rfl, items, read⟩
      exact ⟨_, after, by simp, .cons blanks within spelled items, read⟩

theorem spellsMembers_of_scan? (members : List (String × Json)) {chars : List Char}
    {more : List Token} (read : Token.scan? chars = some (memberTokens members ++ more)) :
    ∃ own after, chars = own ++ after ∧ SpellsMembers own members ∧
      Token.scan? after = some more := by
  match members with
  | [] =>
      rw [memberTokens] at read
      exact ⟨[], chars, rfl, .nil, read⟩
  | (key, value) :: rest =>
      rw [memberTokens] at read
      simp only [List.cons_append, List.append_assoc] at read
      rcases Token.mark_of_scan?_cons rfl read with ⟨before, inner, rfl, blanks, read⟩
      rcases spellsMember_of_scan? read fun _ => spells_of_scan? value
        with ⟨inside, own, inner, rfl, within, spelled, read⟩
      rcases spellsMembers_of_scan? rest read with ⟨later, after, rfl, members, read⟩
      exact ⟨_, after, by simp, .cons blanks within spelled members, read⟩

end

/-! ## Documents -/

/-- A text is scanned as the tokens of a value exactly when it is a document of that source. -/
theorem writes_iff {document : String} {source : Json} :
    Writes document source ↔ Token.scan? document.toList = some source.tokens := by
  constructor
  · rintro ⟨split, before, spelled, after⟩
    have scanned := spelled.scannedAs _ (after.severs [] nofun)
    rw [List.append_nil] at scanned
    have blank := after.scan? []
    rw [List.append_nil, Token.scan?] at blank
    rw [split, before.scan?, scanned, blank]
    simp
  · intro read
    rw [← List.append_nil source.tokens] at read
    rcases spells_of_scan? source read with ⟨before, own, after, split, blanks, spelled, ends⟩
    exact ⟨split, blanks, spelled, Token.blanks_of_scan?_nil ends⟩

/--
The texts that are read are the documents of the grammar, and each is read as
the value that it denotes.
-/
theorem parse?_eq_some_iff {document : String} {value : Json} :
    parse? document = some value ↔ Denotes document value := by
  simp only [parse?, Denotes, writes_iff, Option.bind_eq_some_iff, ofTokens?_eq_some_iff]
  constructor
  · rintro ⟨tokens, read, source, rfl, rfl⟩
    exact ⟨source, read, rfl⟩
  · rintro ⟨source, read, rfl⟩
    exact ⟨source.tokens, read, source, rfl, rfl⟩

/-- A document denotes one value. -/
theorem Denotes.unique {document : String} {first second : Json} (one : Denotes document first)
    (other : Denotes document second) : first = second :=
  Option.some.inj ((parse?_eq_some_iff.mpr one).symm.trans (parse?_eq_some_iff.mpr other))

/-- The keys of an object that a document denotes are different. -/
theorem Denotes.keysDiffer {document : String} {value : Json} (denotes : Denotes document value) :
    value.KeysDiffer := by
  rcases denotes with ⟨source, _, rfl⟩
  cases source with
  | object members =>
      rw [merged, ofMembers_eq]
      exact distinct_kept _
  | null | bool | number | text | array => rw [merged]; trivial

theorem mergedMembers_eq_map (members : List (String × Json)) :
    mergedMembers members = members.map fun member => (member.1, member.2.merged) := by
  induction members with
  | nil => rw [mergedMembers]; rfl
  | cons first rest ih => rw [mergedMembers, ih]; rfl

end ConvergentStore.Json
