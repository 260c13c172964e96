import ConvergentStore.Operation.Wire
import ConvergentStore.Proofs.Json.RoundTrip

/-!
# Operations there and back

An operation may travel when its number is a natural number of the safe range.
Then it has a document, and the document is read as the same operation, zero
being without a sign. What is read may always travel again. So every document
of an operation leads to one canonical document, and
`encode_decode_roundTrip` says what the two ways have to do with each other.
-/

namespace ConvergentStore

namespace Binary64

theorem canonical_toText {x : Binary64} (xCount : x.isCount = true) :
    x.canonical.toText = x.toText := by
  have small := toNat_le_of_isCount xCount
  rw [canonical_of_isCount xCount, toText_of_isCount (isCount_ofNat small),
    toText_of_isCount xCount, toNat_ofNat (small.trans largestSafe_le)]

/-- Counts are equal when they are the same but for the sign of zero. -/
theorem equals_iff_canonical_eq {x y : Binary64} (xCount : x.isCount = true)
    (yCount : y.isCount = true) :
    x.equals y = true ↔ x.canonical = y.canonical := by
  have xBounded := (toNat_le_of_isCount xCount).trans largestSafe_le
  have yBounded := (toNat_le_of_isCount yCount).trans largestSafe_le
  rw [equals_iff_toNat_eq xCount yCount, canonical_of_isCount xCount,
    canonical_of_isCount yCount]
  constructor
  · intro same
    rw [same]
  · intro same
    rw [← toNat_ofNat xBounded, same, toNat_ofNat yBounded]

theorem isCount_of_equals {x y : Binary64} (equal : x.equals y = true)
    (yCount : y.isCount = true) :
    x.isCount = true := by
  have natural := equals_ofNat_toNat yCount
  refine isCount_iff.mpr ⟨y.toNat, toNat_le_of_isCount yCount, ?_⟩
  simp only [equals, Bool.and_eq_true, beq_iff_eq] at equal natural ⊢
  exact ⟨⟨equal.1.1, natural.1.2⟩, equal.2.trans natural.2⟩

theorem equals_comm (x y : Binary64) : x.equals y = y.equals x := by
  simp only [equals, Bool.and_comm (!x.isNaN), Bool.beq_comm (a := x.place)]

end Binary64

namespace Operation

/-! ## Operations that may travel -/

/-- The number of an operation that may travel is a natural number up to the largest safe one. -/
def MayTravel : Operation → Prop
  | .registerSet _ _ timestamp =>
      ∃ n : Nat, n ≤ Binary64.largestSafe ∧ timestamp.equals (.ofNat n) = true
  | .counterIncrement _ amount =>
      ∃ n : Nat, n ≤ Binary64.largestSafe ∧ amount.equals (.ofNat n) = true
  | .setAdd _ _ => True

/-- The operation without the sign of a zero in it. -/
def canonical : Operation → Operation
  | .registerSet key value timestamp => .registerSet key value timestamp.canonical
  | .counterIncrement key amount => .counterIncrement key amount.canonical
  | .setAdd key element => .setAdd key element

theorem canonical_equals {operation : Operation} (travels : operation.MayTravel) :
    operation.canonical.equals operation = true := by
  cases operation with
  | registerSet key value timestamp =>
      have count := Binary64.isCount_iff.mpr travels
      have same := Binary64.equals_ofNat_toNat count
      rw [Binary64.equals_comm, ← Binary64.canonical_of_isCount count] at same
      simp [canonical, equals, same]
  | counterIncrement key amount =>
      have count := Binary64.isCount_iff.mpr travels
      have same := Binary64.equals_ofNat_toNat count
      rw [Binary64.equals_comm, ← Binary64.canonical_of_isCount count] at same
      simp [canonical, equals, same]
  | setAdd key element => simp [canonical, equals]

/-! ## Values in transit -/

theorem enumerate_singleton {α : Type} (member : String × α) :
    Json.enumerate [member] = [member] := by
  cases index : Json.arrayIndex? member.1 with
  | none => simp [Json.enumerate, index]
  | some position => simp [Json.enumerate, index]

/-- An object with one member has a foreign key when the member's key is another one. -/
theorem foreignKey?_singleton (expected key : String) (value : Json) :
    foreignKey? expected [(key, value)] = if key = expected then none else some key := by
  by_cases same : key = expected
  · simp [foreignKey?, enumerate_singleton, same]
  · simp [foreignKey?, enumerate_singleton, same]

theorem wireName_injective : Function.Injective Family.wireName := by
  intro left right equal
  cases left <;> cases right <;> simp_all [Family.wireName]

/-- The content under a family's name is read as content of that family, and of no other. -/
theorem ofFamily_wrapped (family named : Family) (content : Json) :
    ofFamily family (.object [(named.wireName, content)]) =
      if named = family then (ofContent family content).mapError .content
      else .error (.unexpected named.wireName) := by
  by_cases same : named = family
  · subst same
    simp [ofFamily, foreignKey?_singleton, Json.member?]
  · have apart : named.wireName ≠ family.wireName := fun equal => same (wireName_injective equal)
    simp [ofFamily, foreignKey?_singleton, same, apart]

theorem countOf_of_isCount {x : Binary64} (xCount : x.isCount = true) :
    countOf (.number x) = .ok x := by
  simp only [Binary64.isCount, Bool.and_eq_true] at xCount
  simp [countOf, xCount.1, xCount.2]

theorem countOf_eq_ok_iff {value : Json} {x : Binary64} :
    countOf value = .ok x ↔ value = .number x ∧ x.isCount = true := by
  constructor
  · intro read
    cases value with
    | number n =>
        simp only [countOf] at read
        split at read
        · cases read
        · split at read
          · cases read
          · next above safe =>
              cases read
              simp only [Bool.not_eq_true', Bool.not_eq_false] at above safe
              simp [Binary64.isCount, above, safe]
    | null | bool | text | array | object => cases read
  · rintro ⟨rfl, count⟩
    exact countOf_of_isCount count

/-- An operation that may travel is read back from its content. -/
theorem ofContent_content {operation : Operation} (travels : operation.MayTravel) :
    ofContent operation.family (.object operation.content) = .ok operation := by
  cases operation with
  | registerSet key value timestamp =>
      have read := countOf_of_isCount (Binary64.isCount_iff.mpr travels)
      simp [ofContent, family, content, textField, countField, field, Json.member?, read, bind,
        Except.bind, pure, Except.pure]
  | counterIncrement key amount =>
      have read := countOf_of_isCount (Binary64.isCount_iff.mpr travels)
      simp [ofContent, family, content, textField, countField, field, Json.member?, read, bind,
        Except.bind, pure, Except.pure]
  | setAdd key element =>
      simp [ofContent, family, content, textField, addField, field, Json.member?, bind,
        Except.bind, pure, Except.pure]

/-- An operation that may travel is read back from its value. -/
theorem ofWire_toWire {operation : Operation} (travels : operation.MayTravel) :
    ofWire operation.toWire = .ok operation := by
  have read : ∀ family, ofFamily family operation.toWire =
      if operation.family = family then .ok operation
      else .error (.unexpected operation.family.wireName) := by
    intro family
    rw [toWire, ofFamily_wrapped]
    split
    · next same =>
        subst same
        rw [ofContent_content travels]
        rfl
    · rfl
  simp only [ofWire, read]
  cases operation.family <;> rfl

/-! ## Documents -/

/-- A step of a reading that succeeds has succeeded, and so has what follows it. -/
theorem ok_of_bind_eq_ok {Fault First Second : Type} {first : Except Fault First}
    {next : First → Except Fault Second} {result : Second}
    (read : first >>= next = .ok result) :
    ∃ value, first = .ok value ∧ next value = .ok result := by
  cases first with
  | error fault => cases read
  | ok value => exact ⟨value, rfl, read⟩

/-- A step of a reading that fails has failed, or what follows it has. -/
theorem error_of_bind_eq_error
    {Fault First Second : Type}
    {first : Except Fault First}
    {next : First → Except Fault Second}
    {fault : Fault}
    (failed : first >>= next = .error fault) :
    first = .error fault ∨ ∃ value, first = .ok value ∧ next value = .error fault := by
  cases first with
  | error own =>
      cases failed
      exact .inl rfl
  | ok value => exact .inr ⟨value, rfl, failed⟩

theorem ok_of_mapError_eq_ok
    {First Second Value : Type}
    {translate : First → Second}
    {result : Except First Value}
    {value : Value}
    (succeeded : result.mapError translate = .ok value) :
    result = .ok value := by
  cases result with
  | ok found =>
      cases succeeded
      rfl
  | error fault => cases succeeded

theorem error_of_mapError_eq_error
    {First Second Value : Type}
    {translate : First → Second}
    {result : Except First Value}
    {fault : Second}
    (failed : result.mapError translate = .error fault) :
    ∃ cause, result = .error cause ∧ fault = translate cause := by
  cases result with
  | ok found => cases failed
  | error cause =>
      cases failed
      exact ⟨cause, rfl, rfl⟩

theorem countField_eq_ok {name : String} {members : List (String × Json)} {x : Binary64}
    (read : countField name members = .ok x) :
    Json.member? name members = some (.number x) ∧ x.isCount = true := by
  rcases ok_of_bind_eq_ok read with ⟨value, found, counted⟩
  cases count : countOf value with
  | error mismatch => rw [count] at counted; cases counted
  | ok y =>
      rw [count] at counted
      cases counted
      rcases countOf_eq_ok_iff.mp count with ⟨rfl, isCount⟩
      refine ⟨?_, isCount⟩
      simp only [field] at found
      split at found
      · next stored => cases found; exact stored
      · cases found

theorem mayTravel_of_ofContent {family : Family} {value : Json} {operation : Operation}
    (read : ofContent family value = .ok operation) :
    operation.MayTravel := by
  cases value with
  | object members =>
      cases family with
      | register =>
          rcases ok_of_bind_eq_ok read with ⟨_, _, read⟩
          rcases ok_of_bind_eq_ok read with ⟨_, _, read⟩
          rcases ok_of_bind_eq_ok read with ⟨_, counted, read⟩
          cases read
          exact Binary64.isCount_iff.mp (countField_eq_ok counted).2
      | counter =>
          rcases ok_of_bind_eq_ok read with ⟨_, _, read⟩
          rcases ok_of_bind_eq_ok read with ⟨_, counted, read⟩
          cases read
          exact Binary64.isCount_iff.mp (countField_eq_ok counted).2
      | set =>
          rcases ok_of_bind_eq_ok read with ⟨_, _, read⟩
          rcases ok_of_bind_eq_ok read with ⟨_, _, read⟩
          rcases ok_of_bind_eq_ok read with ⟨_, _, read⟩
          cases read
          trivial
  | null | bool | number | text | array => cases read

theorem mayTravel_of_ofFamily {family : Family} {value : Json} {operation : Operation}
    (read : ofFamily family value = .ok operation) :
    operation.MayTravel := by
  cases value with
  | object members =>
      simp only [ofFamily] at read
      split at read
      · cases read
      · split at read
        · cases read
        · next content _ =>
            cases inner : ofContent family content with
            | error mismatch => rw [inner] at read; cases read
            | ok found => rw [inner] at read; cases read; exact mayTravel_of_ofContent inner
  | null | bool | number | text | array => cases read

/-- What is read may always travel again. -/
theorem mayTravel_of_ofWire {value : Json} {operation : Operation}
    (read : ofWire value = .ok operation) :
    operation.MayTravel := by
  simp only [ofWire] at read
  split at read
  · next found => cases read; exact mayTravel_of_ofFamily found
  · split at read
    · next found => cases read; exact mayTravel_of_ofFamily found
    · split at read
      · next found => cases read; exact mayTravel_of_ofFamily found
      · cases read

theorem mayTravel_of_decode {document : String} {operation : Operation}
    (read : decode document = .ok operation) :
    operation.MayTravel := by
  simp only [decode] at read
  split at read
  · next value _ =>
      cases inner : ofWire value with
      | error mismatch => rw [inner] at read; cases read
      | ok found => rw [inner] at read; cases read; exact mayTravel_of_ofWire inner
  · cases read

/-- Only an operation that may travel has a value that is read. -/
theorem mayTravel_of_ofWire_toWire {operation found : Operation}
    (read : ofWire operation.toWire = .ok found) :
    operation.MayTravel := by
  have inner : ofContent operation.family (.object operation.content) = .ok found := by
    simp only [ofWire, toWire, ofFamily_wrapped] at read
    cases content : ofContent operation.family (.object operation.content) with
    | ok operation' =>
        cases family : operation.family <;>
          rw [family] at content read <;>
          simp [content, Except.mapError] at read <;>
          rw [read]
    | error mismatch =>
        cases family : operation.family <;>
          rw [family] at content read <;>
          simp [content, Except.mapError] at read
  cases operation with
  | registerSet key value timestamp =>
      rcases ok_of_bind_eq_ok inner with ⟨_, _, inner⟩
      rcases ok_of_bind_eq_ok inner with ⟨_, _, inner⟩
      rcases ok_of_bind_eq_ok inner with ⟨_, counted, _⟩
      rcases countField_eq_ok counted with ⟨stored, count⟩
      cases stored
      exact Binary64.isCount_iff.mp count
  | counterIncrement key amount =>
      rcases ok_of_bind_eq_ok inner with ⟨_, _, inner⟩
      rcases ok_of_bind_eq_ok inner with ⟨_, counted, _⟩
      rcases countField_eq_ok counted with ⟨stored, count⟩
      cases stored
      exact Binary64.isCount_iff.mp count
  | setAdd key element => trivial

/-- An operation has a document when it may travel, and the document is the text of its value. -/
theorem encode_eq_ok_iff {operation : Operation} {document : String} :
    operation.encode = .ok document ↔
      operation.MayTravel ∧ operation.toWire.compact = document := by
  constructor
  · intro written
    simp only [encode] at written
    split at written
    · next read =>
        cases written
        exact ⟨mayTravel_of_ofWire_toWire read, rfl⟩
    · cases written
  · rintro ⟨travels, rfl⟩
    simp only [encode, ofWire_toWire travels]

/-! ## There and back -/

theorem mayTravel_canonical {operation : Operation} (travels : operation.MayTravel) :
    operation.canonical.MayTravel := by
  cases operation with
  | registerSet key value timestamp =>
      have count := Binary64.isCount_iff.mpr travels
      exact Binary64.isCount_iff.mp ((Binary64.isCount_canonical _).trans count)
  | counterIncrement key amount =>
      have count := Binary64.isCount_iff.mpr travels
      exact Binary64.isCount_iff.mp ((Binary64.isCount_canonical _).trans count)
  | setAdd key element => trivial

/-- An operation and its canonical form have one text. -/
theorem compact_toWire_canonical {operation : Operation} (travels : operation.MayTravel) :
    operation.canonical.toWire.compact = operation.toWire.compact := by
  cases operation with
  | registerSet key value timestamp =>
      have same := Binary64.canonical_toText (Binary64.isCount_iff.mpr travels)
      simp only [canonical, toWire, family, content, Json.compact, Json.compactMembers, same]
  | counterIncrement key amount =>
      have same := Binary64.canonical_toText (Binary64.isCount_iff.mpr travels)
      simp only [canonical, toWire, family, content, Json.compact, Json.compactMembers, same]
  | setAdd key element => rfl

theorem hasNaturals_toWire_canonical {operation : Operation} (travels : operation.MayTravel) :
    operation.canonical.toWire.HasNaturals := by
  have natural : ∀ {x : Binary64}, x.isCount = true →
      ∃ n : Nat, n ≤ Binary64.largestSafe ∧ x.canonical = .ofNat n := fun count =>
    ⟨_, Binary64.toNat_le_of_isCount count, Binary64.canonical_of_isCount count⟩
  cases operation with
  | registerSet key value timestamp =>
      simpa [canonical, toWire, content, Json.HasNaturals, Json.MembersHaveNaturals] using
        natural (Binary64.isCount_iff.mpr travels)
  | counterIncrement key amount =>
      simpa [canonical, toWire, content, Json.HasNaturals, Json.MembersHaveNaturals] using
        natural (Binary64.isCount_iff.mpr travels)
  | setAdd key element =>
      simp [canonical, toWire, content, Json.HasNaturals, Json.MembersHaveNaturals]

/-- The fields of an operation have different names. -/
theorem merged_toWire (operation : Operation) : operation.toWire.merged = operation.toWire := by
  cases operation <;>
    simp [toWire, content, Json.merged, Json.mergedMembers, Json.ofMembers, Json.putMember]

/-- The document of an operation is read as its canonical form. -/
theorem decode_encode {operation : Operation} {document : String}
    (written : operation.encode = .ok document) :
    decode document = .ok operation.canonical := by
  rcases encode_eq_ok_iff.mp written with ⟨travels, rfl⟩
  rw [← compact_toWire_canonical travels]
  simp only [decode, Json.parse?_compact (hasNaturals_toWire_canonical travels), merged_toWire,
    ofWire_toWire (mayTravel_canonical travels)]
  rfl

/-- Operations that may travel are equal when they have one canonical form. -/
theorem equals_iff_canonical_eq {left right : Operation} (leftTravels : left.MayTravel)
    (rightTravels : right.MayTravel) :
    left.equals right = true ↔ left.canonical = right.canonical := by
  cases left with
  | registerSet leftKey leftValue leftTime =>
      cases right with
      | registerSet rightKey rightValue rightTime =>
          have same := Binary64.equals_iff_canonical_eq (Binary64.isCount_iff.mpr leftTravels)
            (Binary64.isCount_iff.mpr rightTravels)
          simp [equals, canonical, same, and_assoc]
      | counterIncrement | setAdd => simp [equals, canonical]
  | counterIncrement leftKey leftAmount =>
      cases right with
      | counterIncrement rightKey rightAmount =>
          have same := Binary64.equals_iff_canonical_eq (Binary64.isCount_iff.mpr leftTravels)
            (Binary64.isCount_iff.mpr rightTravels)
          simp [equals, canonical, same]
      | registerSet | setAdd => simp [equals, canonical]
  | setAdd leftKey leftElement =>
      cases right with
      | setAdd => simp [equals, canonical]
      | registerSet | counterIncrement => simp [equals, canonical]

theorem mayTravel_of_equals {left right : Operation} (equal : left.equals right = true)
    (rightTravels : right.MayTravel) :
    left.MayTravel := by
  cases left <;> cases right <;> simp only [equals, Bool.and_eq_true, Bool.false_eq_true] at equal
  · exact Binary64.isCount_iff.mp
      (Binary64.isCount_of_equals equal.2 (Binary64.isCount_iff.mpr rightTravels))
  · exact Binary64.isCount_iff.mp
      (Binary64.isCount_of_equals equal.2 (Binary64.isCount_iff.mpr rightTravels))
  · trivial

/-- Operations have one document exactly when they are equal. -/
theorem encode_eq_ok_iff_equals {operation other : Operation} {document : String}
    (written : operation.encode = .ok document) :
    other.encode = .ok document ↔ other.equals operation = true := by
  rcases encode_eq_ok_iff.mp written with ⟨travels, text⟩
  constructor
  · intro same
    have otherTravels := (encode_eq_ok_iff.mp same).1
    have one := (decode_encode same).symm.trans (decode_encode written)
    exact (equals_iff_canonical_eq otherTravels travels).mpr (Except.ok.inj one)
  · intro equal
    have otherTravels := mayTravel_of_equals equal travels
    have one := (equals_iff_canonical_eq otherTravels travels).mp equal
    refine encode_eq_ok_iff.mpr ⟨otherTravels, ?_⟩
    rw [← compact_toWire_canonical otherTravels, one, compact_toWire_canonical travels, text]

/-- The document of the operation that a document describes. -/
def recode? (document : String) : Option String :=
  (decode document).toOption.bind fun operation => operation.encode.toOption

theorem recode?_of_decode {document : String} {operation : Operation}
    (read : decode document = .ok operation) :
    ∃ rewritten, operation.encode = .ok rewritten ∧ recode? document = some rewritten ∧
      recode? rewritten = some rewritten := by
  have travels := mayTravel_of_decode read
  have written := encode_eq_ok_iff.mpr ⟨travels, rfl⟩
  have again := (encode_eq_ok_iff_equals written).mpr (canonical_equals travels)
  refine ⟨_, written, ?_, ?_⟩
  · simp [recode?, read, written, Except.toOption]
  · simp [recode?, decode_encode written, again, Except.toOption]

theorem recode?_recode? (document : String) :
    (recode? document).bind recode? = recode? document := by
  cases read : decode document with
  | error fault => simp [recode?, read, Except.toOption]
  | ok operation =>
      rcases recode?_of_decode read with ⟨rewritten, _, first, second⟩
      rw [first, Option.bind_some, second]

/--
Operations travel safely. An operation has a document exactly when it may
travel; the document is read as an equal operation and is the document of equal
operations only. A document that is read at all can be written again, and
writing it again once is as good as twice.
-/
theorem encode_decode_roundTrip (operation : Operation) :
    ((∃ document, operation.encode = .ok document) ↔ operation.MayTravel) ∧
    (∀ document, operation.encode = .ok document →
      (∃ arrived, decode document = .ok arrived ∧ arrived.equals operation = true) ∧
      ∀ other : Operation,
        other.encode = .ok document ↔ other.equals operation = true) ∧
    (∀ document, decode document = .ok operation →
      ∃ rewritten, operation.encode = .ok rewritten ∧ recode? document = some rewritten ∧
        ∃ arrived, decode rewritten = .ok arrived ∧ arrived.equals operation = true) ∧
    ∀ document, (recode? document).bind recode? = recode? document := by
  refine ⟨⟨?_, ?_⟩, ?_, ?_, recode?_recode?⟩
  · rintro ⟨document, written⟩
    exact (encode_eq_ok_iff.mp written).1
  · intro travels
    exact ⟨_, encode_eq_ok_iff.mpr ⟨travels, rfl⟩⟩
  · intro document written
    have travels := (encode_eq_ok_iff.mp written).1
    exact ⟨⟨_, decode_encode written, canonical_equals travels⟩,
      fun other => encode_eq_ok_iff_equals written⟩
  · intro document read
    have travels := mayTravel_of_decode read
    rcases recode?_of_decode read with ⟨rewritten, written, recoded, _⟩
    exact ⟨rewritten, written, recoded, _, decode_encode written, canonical_equals travels⟩

/-- A write at negative zero under an awkward key goes there and back. -/
theorem encode_decode_roundTrip_negativeZero :
    ∃ document,
      (registerSet "__proto__" "\"\\\n\u2028😀?iv=" (-0)).encode = .ok document ∧
      ∃ arrived, decode document = .ok arrived ∧
        arrived.equals (registerSet "__proto__" "\"\\\n\u2028😀?iv=" (-0)) = true := by
  obtain ⟨written, read, _⟩ := encode_decode_roundTrip
    (registerSet "__proto__" "\"\\\n\u2028😀?iv=" (-0))
  rcases written.mpr ⟨0, by decide, by decide +kernel⟩ with ⟨document, encoded⟩
  exact ⟨document, encoded, (read document encoded).1⟩

end Operation

end ConvergentStore
