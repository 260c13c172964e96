import ConvergentStore.Proofs.Replica.Acceptance

/-!
# Operations in the clear

A cipher may take every content with the separator of sealed text for sealed.
Then an operation that arrives in the clear is understood exactly when the
separator stands in none of the texts that its maker chose. The document of an
operation has it nowhere else, since no escape, no name of a field and no
number brings it about (`hasVectorSeparator_compact`).
-/

namespace ConvergentStore

namespace Cipher

/-! ## The separator in documents -/

/-- The separator of sealed text stands in a row of characters. -/
def Marked (chars : List Char) : Prop :=
  vectorSeparator.toList <:+: chars

theorem hasVectorSeparator_iff (text : String) :
    hasVectorSeparator text = true ↔ Marked text.toList :=
  Text.contains_iff_infix

theorem not_marked_nil : ¬ Marked [] := by
  rw [Marked, vectorSeparator_toList, List.infix_nil]
  exact List.cons_ne_nil _ _

/-- Only where a question mark stands can the separator begin. -/
theorem marked_append_of_not_mem
    {before : List Char}
    (absent : '?' ∉ before)
    (after : List Char) :
    Marked (before ++ after) ↔ Marked after := by
  rw [Marked, Marked, vectorSeparator_toList]
  exact Text.infix_append_iff_of_not_mem absent after

theorem marked_cons
    {c : Char}
    (apart : c ≠ '?')
    (rest : List Char) :
    Marked (c :: rest) ↔ Marked rest := by
  have absent : '?' ∉ [c] := by simp [apart.symm]
  exact marked_append_of_not_mem absent rest

/-- No escape brings the separator about, and no quote stands in it. -/
theorem marked_quote_append
    (text : String)
    (rest : List Char) :
    Marked ((Text.Quoted.quote text).toList ++ rest) ↔ Marked text.toList ∨ Marked rest := by
  have plain : Text.Quoted.Plain vectorSeparator.toList := by
    have each : vectorSeparator.toList.all
        (fun c => Text.Quoted.escape c = [c] ∧ c ∉ Text.Quoted.formChars) = true := by
      decide
    exact fun c among => of_decide_eq_true (List.all_eq_true.mp each c among)
  have written : (Text.Quoted.quote text).toList ++ rest =
      '"' :: (text.toList.flatMap Text.Quoted.escape ++ '"' :: rest) := by
    simp [Text.Quoted.quote, Text.Quoted.encode]
  rw [written, marked_cons (by decide), Marked, Text.infix_append_cons_iff (by decide),
    Text.Quoted.infix_flatMap_escape_iff plain]
  rfl

theorem marked_toText_append
    {x : Binary64}
    (count : x.isCount = true)
    (rest : List Char) :
    Marked (x.toText.toList ++ rest) ↔ Marked rest := by
  rw [Binary64.toText_of_isCount count, String.toList_ofList]
  refine marked_append_of_not_mem ?_ rest
  intro among
  have digit := Nat.isDigit_of_mem_toDigits (by decide) (by decide) among
  revert digit
  decide

end Cipher

namespace Operation

/-- The texts of an operation that its maker chose. -/
def texts : Operation → List String
  | .registerSet key value _ => [key, value]
  | .counterIncrement key _ => [key]
  | .setAdd key element => [key, element]

/-- The document of an operation has the separator in it exactly when one of its texts has. -/
theorem hasVectorSeparator_compact
    {operation : Operation}
    (travels : operation.MayTravel) :
    Cipher.hasVectorSeparator operation.toWire.compact = true ↔
      ∃ text ∈ operation.texts, Cipher.hasVectorSeparator text = true := by
  simp only [Cipher.hasVectorSeparator_iff]
  cases operation with
  | registerSet key value timestamp =>
      have number := Cipher.marked_toText_append (Binary64.isCount_iff.mpr travels)
      simp (disch := decide) [toWire, content, family, Family.wireName, Json.compact,
        Json.compactMembers, texts, String.intercalate_cons_cons, Cipher.marked_cons,
        Cipher.marked_quote_append, Cipher.not_marked_nil, number]
  | counterIncrement key amount =>
      have number := Cipher.marked_toText_append (Binary64.isCount_iff.mpr travels)
      simp (disch := decide) [toWire, content, family, Family.wireName, Json.compact,
        Json.compactMembers, texts, String.intercalate_cons_cons, Cipher.marked_cons,
        Cipher.marked_quote_append, Cipher.not_marked_nil, number]
  | setAdd key element =>
      simp (disch := decide) [toWire, content, family, Family.wireName, Json.compact,
        Json.compactMembers, texts, String.intercalate_cons_cons, Cipher.marked_cons,
        Cipher.marked_quote_append, Cipher.not_marked_nil]

end Operation

namespace Profile

/-! ## Arriving in the clear -/

/--
A document of an operation arrives in the clear, at a replica whose cipher goes
by the separator. If none of the texts of the operation has the separator in it,
the message has the effect of the operation. If one of them has it, the document
is taken for sealed and given to the cipher, and the cipher that seals has
nothing to disclose of it: the message fails and changes nothing.
-/
theorem clear_arrival
    {profile : Profile}
    {operation : Operation}
    {message : Message}
    (recognises : profile.cipher.recognises = Cipher.hasVectorSeparator)
    (written : operation.encode = .ok message.content)
    (known : message.kind.equals profile.settings.kind = true)
    (marked : message.tags.hasHashtag profile.settings.marker = true) :
    ((∀ text ∈ operation.texts, Cipher.hasVectorSeparator text = false) →
      ∀ replica : Replica, replica.Reachable → profile.HasEffect message operation replica) ∧
    ((∃ text ∈ operation.texts, Cipher.hasVectorSeparator text = true) →
      profile.reveal message =
        (profile.cipher.decrypt message.content message.sender).mapError
          (.undecryptable message.sender) ∧
      (profile.cipher = .sealing → ∀ replica : Replica,
        (∃ fault, profile.ingest message replica = .error fault ∧
          fault.kind = "SerializationError") ∧
        profile.received message replica = replica)) := by
  rcases Operation.encode_eq_ok_iff.mp written with ⟨travels, document⟩
  have screened : profile.screen message = none := screen_eq_none_iff.mpr ⟨known, marked⟩
  have taken := Operation.hasVectorSeparator_compact travels
  rw [document] at taken
  constructor
  · intro unmarked replica reachable
    have clear : Cipher.hasVectorSeparator message.content = false := by
      rw [← Bool.not_eq_true, taken]
      rintro ⟨text, among, separated⟩
      rw [unmarked text among] at separated
      cases separated
    refine hasEffect_of_reveal screened travels ?_ reachable
    rw [reveal, recognises, clear, document]
    rfl
  · intro separated
    have revealed : profile.reveal message =
        (profile.cipher.decrypt message.content message.sender).mapError
          (.undecryptable message.sender) := by
      rw [reveal, recognises, taken.mpr separated]
      rfl
    refine ⟨revealed, ?_⟩
    intro sealing replica
    have opening : message.content.toList.head? = some '\x7b' := by
      rw [← document]
      simp [Operation.toWire, Json.compact]
    rcases Cipher.disclose_of_brace opening message.sender with ⟨cause, withheld⟩
    have undisclosed : profile.cipher.decrypt message.content message.sender = .error cause := by
      rw [sealing]
      exact withheld
    rw [undisclosed] at revealed
    have ingested := ingest_of_reveal_error screened revealed replica
    exact ⟨⟨_, ingested, rfl⟩, by simp [received, ingested]⟩

/-- A key that ends with a question mark and an element with the rest of the separator do no harm. -/
theorem clear_arrival_divided :
    let profile : Profile := ⟨.standard, .sealing, .unavailable⟩
    let operation : Operation := .setAdd "a?" "iv="
    let message : Message :=
      ⟨"1", 1, "peer",
        "\x7b\"GSet\":\x7b\"key\":\"a?\",\"value\":\"iv=\",\"action\":\"Add\"\x7d\x7d",
        [["t", "nostr-crdt"]]⟩
    operation.encode = .ok message.content ∧
      profile.HasEffect message operation .empty := by
  intro profile operation message
  have written : operation.encode = .ok message.content :=
    Operation.encode_eq_ok_iff.mpr ⟨trivial, by decide +kernel⟩
  have recognises : profile.cipher.recognises = Cipher.hasVectorSeparator := rfl
  have effect := (clear_arrival recognises written (by decide +kernel) (by decide +kernel)).1
  exact ⟨written, effect (by decide +kernel) .empty Replica.reachable_empty⟩

/-- An element that is the separator is lost in the clear, although the replica would take it. -/
theorem clear_separator_withheld :
    let profile : Profile := ⟨.standard, .sealing, .unavailable⟩
    let operation : Operation := .setAdd "k" "?iv="
    let message : Message :=
      ⟨"1", 1, "peer",
        "\x7b\"GSet\":\x7b\"key\":\"k\",\"value\":\"?iv=\",\"action\":\"Add\"\x7d\x7d",
        [["t", "nostr-crdt"]]⟩
    operation.encode = .ok message.content ∧
      profile.screen message = none ∧
      (∃ next, Replica.empty.apply operation = .ok next) ∧
      profile.ingest message .empty =
        .error (.undecryptable "peer" ⟨"Wrong key for ciphertext"⟩) ∧
      ¬ profile.HasEffect message operation .empty := by
  intro profile operation message
  have written : operation.encode = .ok message.content :=
    Operation.encode_eq_ok_iff.mpr ⟨trivial, by decide +kernel⟩
  have screened : profile.screen message = none := by decide +kernel
  have withheld : profile.reveal message =
      .error (.undecryptable "peer" ⟨"Wrong key for ciphertext"⟩) := by
    have separated : Cipher.hasVectorSeparator message.content = true := by decide +kernel
    have undisclosed : Cipher.disclose message.content "peer" =
        .error ⟨"Wrong key for ciphertext"⟩ := by decide +kernel
    simp only [reveal, profile, Cipher.sealing, separated, ↓reduceIte]
    rw [undisclosed]
    rfl
  have ingested := ingest_of_reveal_error screened withheld .empty
  refine ⟨written, screened, ⟨_, Replica.apply_setAdd .empty "k" "?iv="⟩, ingested, ?_⟩
  rintro (⟨next, arrived, reached, _, applied, _⟩ | ⟨key, amount, form, _⟩)
  · rw [ingested] at applied
    cases applied
  · exact Operation.noConfusion form

end Profile

end ConvergentStore
