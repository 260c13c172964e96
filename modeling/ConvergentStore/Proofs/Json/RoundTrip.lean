import ConvergentStore.Json.Reader
import ConvergentStore.Proofs.Json.Token

/-!
# Reading JSON values back

The compact text of a value is scanned as the tokens of the value, and the
reader takes these tokens back to the value, with the last of several members
under one key prevailing. The first statement asks that the numbers be natural
numbers in the safe range, which are written digit by digit; the second one
holds of every value.
-/

namespace ConvergentStore.Json

/-! ## Tokens of a value -/

mutual

/-- The tokens of a value. -/
def tokens : Json → List Token
  | .null => [.null]
  | .bool value => [.bool value]
  | .number value => [.number value]
  | .text value => [.text value]
  | .array [] => [.openArray, .closeArray]
  | .array (first :: rest) =>
      .openArray :: (tokens first ++ (itemTokens rest ++ [.closeArray]))
  | .object [] => [.openObject, .closeObject]
  | .object ((key, value) :: rest) =>
      .openObject :: .text key :: .colon ::
        (tokens value ++ (memberTokens rest ++ [.closeObject]))

/-- The tokens of items that stand after another one. -/
def itemTokens : List Json → List Token
  | [] => []
  | item :: rest => .comma :: (tokens item ++ itemTokens rest)

/-- The tokens of members that stand after another one. -/
def memberTokens : List (String × Json) → List Token
  | [] => []
  | (key, value) :: rest =>
      .comma :: .text key :: .colon :: (tokens value ++ memberTokens rest)

end

mutual

/-- The value with one member for each key, the last one, at every depth. -/
def merged : Json → Json
  | .null => .null
  | .bool value => .bool value
  | .number value => .number value
  | .text value => .text value
  | .array items => .array (mergedItems items)
  | .object members => ofMembers (mergedMembers members)

def mergedItems : List Json → List Json
  | [] => []
  | item :: rest => merged item :: mergedItems rest

def mergedMembers : List (String × Json) → List (String × Json)
  | [] => []
  | (key, value) :: rest => (key, merged value) :: mergedMembers rest

end

/-! ## Reading tokens -/

theorem tokens_eq_cons (value : Json) :
    ∃ first rest, value.tokens = first :: rest ∧ first ≠ .closeArray := by
  cases value with
  | null => rw [tokens]; exact ⟨_, _, rfl, nofun⟩
  | bool value => rw [tokens]; exact ⟨_, _, rfl, nofun⟩
  | number value => rw [tokens]; exact ⟨_, _, rfl, nofun⟩
  | text value => rw [tokens]; exact ⟨_, _, rfl, nofun⟩
  | array items =>
      cases items with
      | nil => rw [tokens]; exact ⟨_, _, rfl, nofun⟩
      | cons first rest => rw [tokens]; exact ⟨_, _, rfl, nofun⟩
  | object members =>
      cases members with
      | nil => rw [tokens]; exact ⟨_, _, rfl, nofun⟩
      | cons first rest => rw [tokens]; exact ⟨_, _, rfl, nofun⟩

/-- After the opening of an array a value is read as after a comma. -/
theorem foldlM_arrayStart (value : Json) (more : List Token) (frames : List Frame) :
    (value.tokens ++ more).foldlM Place.next (.arrayStart frames) =
      (value.tokens ++ more).foldlM Place.next (.beforeValue (.array [] :: frames)) := by
  rcases tokens_eq_cons value with ⟨first, rest, equal, opens⟩
  have same : Place.next (.arrayStart frames) first =
      Place.next (.beforeValue (.array [] :: frames)) first := by
    cases first <;> first
      | rfl
      | exact absurd rfl opens
  rw [equal, List.cons_append, List.foldlM_cons, List.foldlM_cons, same]

mutual

/-- The tokens of a value take the reader from before it to after it. -/
theorem foldlM_tokens (value : Json) (more : List Token) (frames : List Frame) :
    (value.tokens ++ more).foldlM Place.next (.beforeValue frames) =
      more.foldlM Place.next (.done value.merged frames) := by
  match value with
  | .null => rw [tokens, merged]; rfl
  | .bool _ => rw [tokens, merged]; rfl
  | .number _ => rw [tokens, merged]; rfl
  | .text _ => rw [tokens, merged]; rfl
  | .array [] => rw [tokens, merged, mergedItems]; rfl
  | .array (first :: rest) =>
      rw [tokens, merged, mergedItems]
      calc
        _ = (first.tokens ++ (itemTokens rest ++ .closeArray :: more)).foldlM Place.next
              (.arrayStart frames) := by
          simp only [List.cons_append, List.append_assoc, List.nil_append, List.foldlM_cons]
          rfl
        _ = (itemTokens rest ++ .closeArray :: more).foldlM Place.next
              (.done first.merged (.array [] :: frames)) := by
          rw [foldlM_arrayStart, foldlM_tokens first]
        _ = _ := by rw [foldlM_itemTokens rest]; rfl
  | .object [] => rw [tokens, merged, mergedMembers]; rfl
  | .object ((key, value) :: rest) =>
      rw [tokens, merged, mergedMembers]
      calc
        _ = (value.tokens ++ (memberTokens rest ++ .closeObject :: more)).foldlM Place.next
              (.beforeValue (.object [] key :: frames)) := by
          simp only [List.cons_append, List.append_assoc, List.nil_append, List.foldlM_cons]
          rfl
        _ = (memberTokens rest ++ .closeObject :: more).foldlM Place.next
              (.done value.merged (.object [] key :: frames)) := foldlM_tokens value _ _
        _ = _ := by rw [foldlM_memberTokens rest]; rfl

theorem foldlM_itemTokens (items : List Json) (last : Json) (read : List Json)
    (more : List Token) (frames : List Frame) :
    (itemTokens items ++ .closeArray :: more).foldlM Place.next
        (.done last (.array read :: frames)) =
      more.foldlM Place.next
        (.done (.array ((last :: read).reverse ++ mergedItems items)) frames) := by
  match items with
  | [] => rw [itemTokens, mergedItems, List.append_nil]; rfl
  | item :: rest =>
      rw [itemTokens, mergedItems]
      calc
        _ = (item.tokens ++ (itemTokens rest ++ .closeArray :: more)).foldlM Place.next
              (.beforeValue (.array (last :: read) :: frames)) := by
          simp only [List.cons_append, List.append_assoc, List.foldlM_cons]
          rfl
        _ = _ := by
          rw [foldlM_tokens item, foldlM_itemTokens rest]
          simp

theorem foldlM_memberTokens (members : List (String × Json)) (key : String) (last : Json)
    (read : List (String × Json)) (more : List Token) (frames : List Frame) :
    (memberTokens members ++ .closeObject :: more).foldlM Place.next
        (.done last (.object read key :: frames)) =
      more.foldlM Place.next
        (.done (ofMembers (((key, last) :: read).reverse ++ mergedMembers members)) frames) := by
  match members with
  | [] => rw [memberTokens, mergedMembers, List.append_nil]; rfl
  | (next, value) :: rest =>
      rw [memberTokens, mergedMembers]
      calc
        _ = (value.tokens ++ (memberTokens rest ++ .closeObject :: more)).foldlM Place.next
              (.beforeValue (.object ((key, last) :: read) next :: frames)) := by
          simp only [List.cons_append, List.append_assoc, List.foldlM_cons]
          rfl
        _ = _ := by
          rw [foldlM_tokens value, foldlM_memberTokens rest]
          simp

end

/-- The tokens of a value denote it, the last member under each key prevailing. -/
theorem ofTokens?_tokens (value : Json) : ofTokens? value.tokens = some value.merged := by
  have read := foldlM_tokens value [] []
  rw [List.append_nil] at read
  simp only [ofTokens?, read]
  rfl

/-! ## Scanning compact texts -/

mutual

/-- Every number in a value is a natural number of the safe range. -/
def HasNaturals : Json → Prop
  | .number value => ∃ n : Nat, n ≤ Binary64.largestSafe ∧ value = .ofNat n
  | .array items => ItemsHaveNaturals items
  | .object members => MembersHaveNaturals members
  | .null | .bool _ | .text _ => True

def ItemsHaveNaturals : List Json → Prop
  | [] => True
  | item :: rest => HasNaturals item ∧ ItemsHaveNaturals rest

def MembersHaveNaturals : List (String × Json) → Prop
  | [] => True
  | (_, value) :: rest => HasNaturals value ∧ MembersHaveNaturals rest

end

/-- A written form is scanned as tokens, before every rest that ends a word. -/
def ScannedAs (written : List Char) (tokens : List Token) : Prop :=
  ∀ rest, Token.EndsWord rest →
    Token.scan? (written ++ rest) = (Token.scan? rest).map (tokens ++ ·)

theorem ScannedAs.append {first second : List Char} {firstTokens secondTokens : List Token}
    (left : ScannedAs first firstTokens) (right : ScannedAs second secondTokens)
    (ends : ∀ rest, Token.EndsWord rest → Token.EndsWord (second ++ rest)) :
    ScannedAs (first ++ second) (firstTokens ++ secondTokens) := by
  intro rest endsRest
  rw [List.append_assoc, left _ (ends rest endsRest), right rest endsRest, Option.map_map]
  congr 1
  funext later
  simp

theorem scannedAs_nil : ScannedAs [] [] := by
  intro rest _
  simp

theorem scannedAs_mark {c : Char} {token : Token} (mark : Token.mark? c = some token) :
    ScannedAs [c] [token] := by
  intro rest _
  exact Token.scan?_mark mark rest

theorem endsWord_cons_mark {c : Char} {token : Token} (mark : Token.mark? c = some token)
    (rest : List Char) : Token.EndsWord (c :: rest) := by
  rintro _ ⟨⟩
  simp [Token.isWordChar, mark]

theorem ScannedAs.mark_append {c : Char} {token : Token} {written : List Char}
    {tokens : List Token} (mark : Token.mark? c = some token)
    (scanned : ScannedAs written tokens) :
    ScannedAs (c :: written) (token :: tokens) := by
  intro rest ends
  rw [List.cons_append, Token.scan?_mark mark, scanned rest ends, Option.map_map]
  rfl

theorem ScannedAs.append_mark {c : Char} {token : Token} {written : List Char}
    {tokens : List Token} (mark : Token.mark? c = some token)
    (scanned : ScannedAs written tokens) :
    ScannedAs (written ++ [c]) (tokens ++ [token]) :=
  scanned.append (scannedAs_mark mark) fun _ _ => endsWord_cons_mark mark _

theorem ScannedAs.quote_append (key : String) {written : List Char} {tokens : List Token}
    (scanned : ScannedAs written tokens) :
    ScannedAs ((Text.Quoted.quote key).toList ++ written) (.text key :: tokens) := by
  intro rest ends
  rw [Text.Quoted.quote, String.toList_ofList, List.append_assoc, Token.scan?_quoted,
    scanned rest ends, Option.map_map, String.ofList_toList]
  rfl

/-- The text of strings that stand after another one, each behind a comma. -/
def afterCommas (texts : List String) : List Char :=
  texts.flatMap fun text => ',' :: text.toList

theorem afterCommas_cons (text : String) (texts : List String) :
    afterCommas (text :: texts) = ',' :: (text.toList ++ afterCommas texts) := by
  simp [afterCommas]

theorem toList_inSquares (inner : String) :
    ("[" ++ inner ++ "]").toList = '[' :: (inner.toList ++ [']']) := by
  simp

theorem toList_inBraces (inner : String) :
    ("\x7b" ++ inner ++ "\x7d").toList = '\x7b' :: (inner.toList ++ ['\x7d']) := by
  simp

theorem toList_quote_colon (key written : String) :
    (Text.Quoted.quote key ++ ":" ++ written).toList =
      (Text.Quoted.quote key).toList ++ ':' :: written.toList := by
  simp

theorem toList_intercalate_comma (first : String) (rest : List String) :
    (",".intercalate (first :: rest)).toList = first.toList ++ afterCommas rest := by
  induction rest generalizing first with
  | nil => simp [afterCommas]
  | cons second rest ih =>
      rw [String.intercalate_cons_cons, String.toList_append, String.toList_append, ih]
      simp [afterCommas]

theorem endsWord_afterCommas (texts : List String) {rest : List Char}
    (ends : Token.EndsWord rest) : Token.EndsWord (afterCommas texts ++ rest) := by
  cases texts with
  | nil => exact ends
  | cons text texts => exact endsWord_cons_mark (show Token.mark? ',' = some .comma from rfl) _

theorem scannedAs_word {c : Char} {word : List Char} {token : Token}
    (all : (c :: word).all Token.isWordChar = true)
    (known : Token.ofWord? (c :: word) = some token) :
    ScannedAs (c :: word) [token] := by
  intro rest ends
  exact Token.scan?_word (List.all_eq_true.mp all) ends known

theorem scannedAs_ofNat {n : Nat} (small : n ≤ Binary64.largestSafe) :
    ScannedAs (Binary64.ofNat n).toText.toList [.number (.ofNat n)] := by
  have bounded := small.trans Binary64.largestSafe_le
  intro rest ends
  rw [Binary64.toText_of_isCount (Binary64.isCount_ofNat small), String.toList_ofList,
    Binary64.toNat_ofNat bounded, Token.scan?_toDigits bounded ends]
  rfl

mutual

/-- The compact text of a value with natural numbers is scanned as its tokens. -/
theorem scannedAs_compact (value : Json) (naturals : value.HasNaturals) :
    ScannedAs value.compact.toList value.tokens := by
  match value with
  | .null =>
      rw [compact, tokens]
      exact scannedAs_word (by decide) (by decide)
  | .bool true =>
      rw [compact, tokens]
      exact scannedAs_word (by decide) (by decide)
  | .bool false =>
      rw [compact, tokens]
      exact scannedAs_word (by decide) (by decide)
  | .number _ =>
      rw [HasNaturals] at naturals
      rcases naturals with ⟨n, small, rfl⟩
      rw [compact, tokens]
      exact scannedAs_ofNat small
  | .text content =>
      rw [compact, tokens]
      have quoted := scannedAs_nil.quote_append content
      rwa [List.append_nil] at quoted
  | .array [] =>
      rw [compact, compactItems, tokens, toList_inSquares, String.intercalate_nil]
      exact (scannedAs_mark rfl).mark_append rfl
  | .array (first :: rest) =>
      rw [HasNaturals, ItemsHaveNaturals] at naturals
      rw [compact, compactItems, tokens, toList_inSquares, toList_intercalate_comma,
        List.append_assoc]
      have head := scannedAs_compact first naturals.1
      have later := scannedAs_compactItems rest naturals.2
      refine (head.append (later.append_mark rfl) ?_).mark_append rfl
      intro after _
      rw [List.append_assoc]
      exact endsWord_afterCommas _ (endsWord_cons_mark
        (show Token.mark? ']' = some .closeArray from rfl) after)
  | .object [] =>
      rw [compact, compactMembers, tokens, toList_inBraces, String.intercalate_nil]
      exact (scannedAs_mark rfl).mark_append rfl
  | .object ((key, value) :: rest) =>
      rw [HasNaturals, MembersHaveNaturals] at naturals
      rw [compact, compactMembers, tokens, toList_inBraces, toList_intercalate_comma,
        toList_quote_colon]
      simp only [List.append_assoc, List.cons_append]
      have head := scannedAs_compact value naturals.1
      have later := scannedAs_compactMembers rest naturals.2
      refine ScannedAs.mark_append rfl (ScannedAs.quote_append _ (ScannedAs.mark_append rfl
        (head.append (later.append_mark rfl) ?_)))
      intro after _
      rw [List.append_assoc]
      exact endsWord_afterCommas _ (endsWord_cons_mark
        (show Token.mark? '\x7d' = some .closeObject from rfl) after)

theorem scannedAs_compactItems (items : List Json) (naturals : ItemsHaveNaturals items) :
    ScannedAs (afterCommas (compactItems items)) (itemTokens items) := by
  match items with
  | [] =>
      rw [compactItems, itemTokens]
      exact scannedAs_nil
  | item :: rest =>
      rw [ItemsHaveNaturals] at naturals
      rw [compactItems, itemTokens]
      have head := scannedAs_compact item naturals.1
      have later := scannedAs_compactItems rest naturals.2
      exact (head.append later fun _ ends => endsWord_afterCommas _ ends).mark_append rfl

theorem scannedAs_compactMembers (members : List (String × Json))
    (naturals : MembersHaveNaturals members) :
    ScannedAs (afterCommas (compactMembers members)) (memberTokens members) := by
  match members with
  | [] =>
      rw [compactMembers, memberTokens]
      exact scannedAs_nil
  | (key, value) :: rest =>
      rw [MembersHaveNaturals] at naturals
      rw [compactMembers, memberTokens]
      have head := scannedAs_compact value naturals.1
      have later := scannedAs_compactMembers rest naturals.2
      have member := ScannedAs.quote_append key (ScannedAs.mark_append (c := ':') rfl
        (head.append later fun _ ends => endsWord_afterCommas _ ends))
      rw [afterCommas_cons, toList_quote_colon, List.append_assoc]
      exact member.mark_append rfl

end

/--
A value with natural numbers is read back from its compact text, the last
member under each key prevailing.
-/
theorem parse?_compact {value : Json} (naturals : value.HasNaturals) :
    parse? value.compact = some value.merged := by
  have scanned := scannedAs_compact value naturals [] nofun
  rw [List.append_nil, Token.scan?] at scanned
  simp only [parse?, scanned, Option.map_some, List.append_nil, Option.bind_some,
    ofTokens?_tokens]

end ConvergentStore.Json
