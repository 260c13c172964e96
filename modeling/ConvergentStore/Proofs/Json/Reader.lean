import ConvergentStore.Proofs.Json.RoundTrip

/-!
# What the reader accepts

The reader accepts the tokens of values and no other row of tokens. A place
demands something of the tokens that are still to come: to finish the value
that is being read, and then every array and object that is still open. The
end of a document demands nothing more, and one token before a place leads to
what the place before it demands. So what an accepting run has read is the row
of tokens of a value (`ofTokens?_eq_some_iff`).
-/

namespace ConvergentStore.Json

/-! ## Demands -/

/-- The tokens after a value finish the frames that are open, and the whole is `result`. -/
def Closes (value : Json) : List Frame → List Token → Json → Prop
  | [], tokens, result => tokens = [] ∧ result = value
  | .array items :: frames, tokens, result =>
      ∃ rest more, tokens = itemTokens rest ++ .closeArray :: more ∧
        Closes (.array ((value :: items).reverse ++ mergedItems rest)) frames more result
  | .object members key :: frames, tokens, result =>
      ∃ rest more, tokens = memberTokens rest ++ .closeObject :: more ∧
        Closes (ofMembers (((key, value) :: members).reverse ++ mergedMembers rest))
          frames more result

/-- The tokens to come finish what has been begun at a place, and the whole is `result`. -/
def Place.Demands : Place → List Token → Json → Prop
  | .beforeValue frames, tokens, result =>
      ∃ (value : Json) (more : List Token),
        tokens = value.tokens ++ more ∧ Closes value.merged frames more result
  | .arrayStart frames, tokens, result =>
      ∃ items more, .openArray :: tokens = (Json.array items).tokens ++ more ∧
        Closes (Json.array items).merged frames more result
  | .objectStart frames, tokens, result =>
      ∃ members more, .openObject :: tokens = (Json.object members).tokens ++ more ∧
        Closes (Json.object members).merged frames more result
  | .beforeKey members frames, tokens, result =>
      ∃ rest more, .comma :: tokens = memberTokens rest ++ .closeObject :: more ∧
        Closes (ofMembers (members.reverse ++ mergedMembers rest)) frames more result
  | .afterKey members key frames, tokens, result =>
      ∃ (value : Json) (more : List Token), tokens = .colon :: (value.tokens ++ more) ∧
        Closes value.merged (.object members key :: frames) more result
  | .done value frames, tokens, result => Closes value frames tokens result

/-! ## Steps -/

variable {frames : List Frame} {token : Token} {place : Place} {tokens : List Token}
  {result : Json}

/-- What stands where a value should begins a value. -/
theorem demands_of_beginValue
    (moved : Place.beginValue frames token = some place)
    (demanded : place.Demands tokens result) :
    (Place.beforeValue frames).Demands (token :: tokens) result := by
  cases token with
  | null =>
      cases moved
      exact ⟨.null, tokens, by simp [Json.tokens], by rwa [merged]⟩
  | bool value =>
      cases moved
      exact ⟨.bool value, tokens, by simp [Json.tokens], by rwa [merged]⟩
  | number value =>
      cases moved
      exact ⟨.number value, tokens, by simp [Json.tokens], by rwa [merged]⟩
  | text value =>
      cases moved
      exact ⟨.text value, tokens, by simp [Json.tokens], by rwa [merged]⟩
  | openArray =>
      cases moved
      rcases demanded with ⟨items, more, opened, closes⟩
      exact ⟨.array items, more, opened, closes⟩
  | openObject =>
      cases moved
      rcases demanded with ⟨members, more, opened, closes⟩
      exact ⟨.object members, more, opened, closes⟩
  | closeObject | closeArray | colon | comma => cases moved

/-- What may stand after the opening of an array is what may stand after a comma. -/
theorem demands_arrayStart
    (demanded : (Place.beforeValue (.array [] :: frames)).Demands tokens result) :
    (Place.arrayStart frames).Demands tokens result := by
  rcases demanded with ⟨first, more, rfl, rest, later, rfl, closes⟩
  refine ⟨first :: rest, later, ?_, ?_⟩
  · simp [Json.tokens]
  · rwa [merged, mergedItems]

/-- A token before a place leads to what the place before the token demands. -/
theorem demands_of_next
    {before : Place}
    (moved : before.next token = some place)
    (demanded : place.Demands tokens result) :
    before.Demands (token :: tokens) result := by
  unfold Place.next at moved
  split at moved
  · exact demands_of_beginValue moved demanded
  · cases moved
    exact ⟨[], tokens, by simp [Json.tokens], by rwa [merged, mergedItems]⟩
  · exact demands_arrayStart (demands_of_beginValue moved demanded)
  · cases moved
    exact ⟨[], tokens, by simp [Json.tokens], by rwa [merged, mergedMembers]⟩
  · next key =>
      cases moved
      rcases demanded with ⟨value, more, rfl, rest, later, rfl, closes⟩
      refine ⟨(key, value) :: rest, later, ?_, ?_⟩
      · simp [Json.tokens]
      · rwa [merged, mergedMembers]
  · next members frames key =>
      cases moved
      rcases demanded with ⟨value, more, rfl, rest, later, rfl, closes⟩
      refine ⟨(key, value) :: rest, later, ?_, ?_⟩
      · simp [memberTokens]
      · simpa [mergedMembers] using closes
  · cases moved
    rcases demanded with ⟨value, more, rfl, closes⟩
    exact ⟨value, more, rfl, closes⟩
  · next value items frames =>
      cases moved
      rcases demanded with ⟨item, more, rfl, rest, later, rfl, closes⟩
      refine ⟨item :: rest, later, ?_, ?_⟩
      · simp [itemTokens]
      · simpa [mergedItems] using closes
  · cases moved
    refine ⟨[], tokens, ?_, ?_⟩
    · simp [itemTokens]
    · simpa [Place.Demands, mergedItems] using demanded
  · next value members key frames =>
      cases moved
      rcases demanded with ⟨rest, more, opened, closes⟩
      exact ⟨rest, more, opened, closes⟩
  · cases moved
    refine ⟨[], tokens, ?_, ?_⟩
    · simp [memberTokens]
    · simpa [Place.Demands, mergedMembers] using demanded
  · cases moved

/-! ## Runs -/

theorem demands_of_foldlM
    {before : Place}
    (moved : tokens.foldlM Place.next before = some place)
    (ends : place.finished? = some result) :
    before.Demands tokens result := by
  induction tokens generalizing before with
  | nil =>
      cases moved
      cases place with
      | done value frames =>
          cases frames with
          | nil =>
              cases ends
              exact ⟨rfl, rfl⟩
          | cons => cases ends
      | _ => cases ends
  | cons token tokens ih =>
      rw [List.foldlM_cons] at moved
      rcases Option.bind_eq_some_iff.mp moved with ⟨middle, step, run⟩
      exact demands_of_next step (ih run)

/-- The reader accepts the tokens of values, the last member under each key prevailing. -/
theorem ofTokens?_eq_some_iff :
    ofTokens? tokens = some result ↔
      ∃ value : Json, tokens = value.tokens ∧ value.merged = result := by
  constructor
  · intro read
    rcases Option.bind_eq_some_iff.mp read with ⟨place, moved, ends⟩
    rcases demands_of_foldlM moved ends with ⟨value, more, rfl, rfl, rfl⟩
    exact ⟨value, List.append_nil _, rfl⟩
  · rintro ⟨value, rfl, rfl⟩
    exact ofTokens?_tokens value

end ConvergentStore.Json
