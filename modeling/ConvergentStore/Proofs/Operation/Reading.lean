import ConvergentStore.Fault
import ConvergentStore.Proofs.Json.Grammar
import ConvergentStore.Proofs.Operation.Shape

/-!
# Reading operations in transit

A value has the shape of an operation in transit when it is an object of one
member, which is named for a family and holds the family's fields. A document
is read as an operation exactly when it denotes a value of that shape, and as
the operation whose fields the value holds. Every other text is refused. The
refusal is reported unless it cannot be described, which is so exactly when the
part at fault cannot be shown: the value itself, or what stands in the place of
the fields, or the first field that does not meet the demand on it.
-/

namespace ConvergentStore

namespace Operation

/-- The part of a value that stands against its being an operation, where there is one. -/
inductive AtFault : Json → Json → Prop where
  | whole {value : Json} :
      (∀ members, value ≠ .object members) → AtFault value value
  | content {family : Family} {value : Json} :
      (∀ members, value ≠ .object members) →
      AtFault (.object [(family.wireName, value)]) value
  | field {family : Family} {members : List (String × Json)} {part : Json} :
      FirstUnmet members family.fields part →
      AtFault (.object [(family.wireName, .object members)]) part

/-- A value has the shape of an operation in transit. -/
def HasShape (value : Json) : Prop :=
  ∃ (family : Family) (members : List (String × Json)),
    value = .object [(family.wireName, .object members)] ∧
      ∀ field ∈ family.fields, Holds members field

/-- A value is that of an operation in transit, whatever else stands beside its fields. -/
def IsIn (operation : Operation) (value : Json) : Prop :=
  ∃ members, value = .object [(operation.family.wireName, .object members)] ∧
    ∀ field ∈ operation.content, Json.member? field.1 members = some field.2

/-! ## Reading wrapped contents -/

theorem enumerate_perm {α : Type} (members : List (String × α)) :
    (Json.enumerate members).Perm members := by
  have parts := List.filter_append_perm (fun member => (Json.arrayIndex? member.1).isSome) members
  refine ((List.mergeSort_perm _ _).append_right _).trans ?_
  simpa [Option.isNone_iff_eq_none, ← Option.not_isSome] using parts

theorem foreignKey?_eq_none_iff {expected : String} {members : List (String × Json)} :
    foreignKey? expected members = none ↔ ∀ member ∈ members, member.1 = expected := by
  simp [foreignKey?, (enumerate_perm members).mem_iff]

/-- An object with different keys that has no foreign key has one member at most. -/
theorem eq_singleton_of_foreignKey?
    {expected : String}
    {members : List (String × Json)}
    {content : Json}
    (distinct : Json.Distinct members)
    (own : foreignKey? expected members = none)
    (found : Json.member? expected members = some content) :
    members = [(expected, content)] := by
  have named := foreignKey?_eq_none_iff.mp own
  match members with
  | [] => cases found
  | [(key, value)] =>
      have same : key = expected := named _ List.mem_cons_self
      subst same
      simpa [Json.member?] using found
  | (first, _) :: (second, _) :: _ =>
      have left : first = expected := named _ List.mem_cons_self
      have right : second = expected := named _ (List.mem_cons_of_mem _ List.mem_cons_self)
      simp [Json.Distinct, left, right] at distinct

theorem ofFamily_eq_ok_iff
    {family : Family}
    {value : Json}
    {operation : Operation}
    (distinct : value.KeysDiffer) :
    ofFamily family value = .ok operation ↔
      ∃ content, value = .object [(family.wireName, content)] ∧
        ofContent family content = .ok operation := by
  constructor
  · intro read
    cases value with
    | object members =>
        simp only [ofFamily] at read
        split at read
        · cases read
        · next own =>
            split at read
            · cases read
            · next content found =>
                rw [eq_singleton_of_foreignKey? distinct own found]
                exact ⟨content, rfl, ok_of_mapError_eq_ok read⟩
    | null | bool | number | text | array => cases read
  · rintro ⟨content, rfl, read⟩
    rw [ofFamily_wrapped, if_pos rfl, read]
    rfl

/-- No value is read as operations of two families. -/
theorem family_unique
    {left right : Family}
    {value : Json}
    {first second : Operation}
    (distinct : value.KeysDiffer)
    (one : ofFamily left value = .ok first)
    (other : ofFamily right value = .ok second) :
    left = right := by
  rcases (ofFamily_eq_ok_iff distinct).mp one with ⟨content, rfl, _⟩
  rcases (ofFamily_eq_ok_iff distinct).mp other with ⟨otherContent, same, _⟩
  simp only [Json.object.injEq, List.cons.injEq, Prod.mk.injEq, and_true] at same
  exact wireName_injective same.1

theorem ofWire_eq_ok_iff_ofFamily
    {value : Json}
    {operation : Operation}
    (distinct : value.KeysDiffer) :
    ofWire value = .ok operation ↔ ∃ family, ofFamily family value = .ok operation := by
  constructor
  · intro read
    simp only [ofWire] at read
    split at read
    · next found => cases read; exact ⟨_, found⟩
    split at read
    · next found => cases read; exact ⟨_, found⟩
    split at read
    · next found => cases read; exact ⟨_, found⟩
    · cases read
  · rintro ⟨family, read⟩
    have alone : ∀ other, other ≠ family → ∃ mismatch, ofFamily other value = .error mismatch := by
      intro other different
      cases found : ofFamily other value with
      | ok second => exact absurd (family_unique distinct found read) different
      | error mismatch => exact ⟨mismatch, rfl⟩
    cases family with
    | register => simp [ofWire, read]
    | counter =>
        rcases alone .register (by decide) with ⟨_, register⟩
        simp [ofWire, register, read]
    | set =>
        rcases alone .register (by decide) with ⟨_, register⟩
        rcases alone .counter (by decide) with ⟨_, counter⟩
        simp [ofWire, register, counter, read]

/-- A value is read as the one operation that may travel and whose fields it holds. -/
theorem ofWire_eq_ok_iff
    {value : Json}
    {operation : Operation}
    (distinct : value.KeysDiffer) :
    ofWire value = .ok operation ↔ operation.MayTravel ∧ operation.IsIn value := by
  rw [ofWire_eq_ok_iff_ofFamily distinct]
  constructor
  · rintro ⟨family, read⟩
    rcases (ofFamily_eq_ok_iff distinct).mp read with ⟨content, rfl, inner⟩
    cases content with
    | object members =>
        rcases ofContent_eq_ok_iff.mp inner with ⟨rfl, travels, held⟩
        exact ⟨travels, members, rfl, held⟩
    | null | bool | number | text | array => cases inner
  · rintro ⟨travels, members, rfl, held⟩
    exact ⟨operation.family, (ofFamily_eq_ok_iff distinct).mpr
      ⟨_, rfl, ofContent_eq_ok_iff.mpr ⟨rfl, travels, held⟩⟩⟩

/-- A value is read exactly when it has the shape of an operation in transit. -/
theorem exists_ofWire_eq_ok_iff {value : Json} (distinct : value.KeysDiffer) :
    (∃ operation, ofWire value = .ok operation) ↔ HasShape value := by
  simp only [ofWire_eq_ok_iff_ofFamily distinct, ofFamily_eq_ok_iff distinct]
  constructor
  · rintro ⟨operation, family, content, rfl, read⟩
    cases content with
    | object members =>
        exact ⟨family, members, rfl, (examines_ofContent family members).succeeds.mp ⟨_, read⟩⟩
    | null | bool | number | text | array => cases read
  · rintro ⟨family, members, rfl, holds⟩
    rcases (examines_ofContent family members).succeeds.mpr holds with ⟨operation, read⟩
    exact ⟨operation, family, _, rfl, read⟩

/-! ## Reasons for refusal -/

/-- What stands against a value, family by family. -/
def mismatchOf (against : Family → FamilyMismatch) : Mismatch :=
  ⟨against .register, against .counter, against .set⟩

theorem ofWire_eq_error
    {value : Json}
    {against : Family → FamilyMismatch}
    (failed : ∀ family, ofFamily family value = .error (against family)) :
    ofWire value = .error (mismatchOf against) := by
  simp only [ofWire, failed, mismatchOf]

/-- A mismatch cannot be drawn when what stands against one family cannot be drawn. -/
theorem tree?_mismatchOf_eq_none_iff {against : Family → FamilyMismatch} :
    (mismatchOf against).tree? = none ↔ ∃ family, (against family).tree? family = none := by
  constructor
  · intro undrawn
    by_contra drawn
    simp only [not_exists, ← ne_eq, Option.ne_none_iff_exists'] at drawn
    rcases drawn .register with ⟨register, first⟩
    rcases drawn .counter with ⟨counter, second⟩
    rcases drawn .set with ⟨set, third⟩
    simp [mismatchOf, Mismatch.tree?, first, second, third] at undrawn
  · rintro ⟨family, undrawn⟩
    cases family <;> simp [mismatchOf, Mismatch.tree?, undrawn]

theorem ofWire_of_not_object {value : Json} (other : ∀ members, value ≠ .object members) :
    ofWire value = .error (mismatchOf fun _ => .notObject value) := by
  refine ofWire_eq_error fun family => ?_
  cases value with
  | object members => exact absurd rfl (other members)
  | null | bool | number | text | array => rfl

/-- What stands against a value in which one family's content has the given mismatch. -/
def against (named : Family) (mismatch : ContentMismatch) (family : Family) : FamilyMismatch :=
  if named = family then .content mismatch else .unexpected named.wireName

theorem ofWire_of_content_error
    {family : Family}
    {content : Json}
    {mismatch : ContentMismatch}
    (failed : ofContent family content = .error mismatch) :
    ofWire (.object [(family.wireName, content)]) =
      .error (mismatchOf (against family mismatch)) := by
  refine ofWire_eq_error fun other => ?_
  rw [ofFamily_wrapped, against]
  split
  · next same =>
      subst same
      rw [failed]
      rfl
  · rfl

theorem tree?_against_eq_none_iff {family : Family} {mismatch : ContentMismatch} :
    (mismatchOf (against family mismatch)).tree? = none ↔ mismatch.tree? family = none := by
  rw [tree?_mismatchOf_eq_none_iff]
  constructor
  · rintro ⟨other, undrawn⟩
    rw [against] at undrawn
    split at undrawn
    · next same =>
        subst same
        simpa [FamilyMismatch.tree?] using undrawn
    · simp [FamilyMismatch.tree?] at undrawn
  · intro undrawn
    exact ⟨family, by simp [against, FamilyMismatch.tree?, undrawn]⟩

/-- What stands against an object that wraps no content can be drawn. -/
theorem ofWire_of_unwrapped
    {members : List (String × Json)}
    (distinct : Json.Distinct members)
    (unwrapped : ∀ (family : Family) (content : Json), members ≠ [(family.wireName, content)]) :
    ∃ against, ofWire (.object members) = .error (mismatchOf against) ∧
      (mismatchOf against).tree? ≠ none := by
  have each : ∀ family, ∃ mismatch, ofFamily family (.object members) = .error mismatch ∧
      mismatch.tree? family ≠ none := by
    intro family
    simp only [ofFamily]
    split
    · exact ⟨_, rfl, by simp [FamilyMismatch.tree?]⟩
    · next own =>
        split
        · exact ⟨_, rfl, by simp [FamilyMismatch.tree?]⟩
        · next content found =>
            exact absurd (eq_singleton_of_foreignKey? distinct own found) (unwrapped family content)
  choose against failed drawn using each
  refine ⟨against, ofWire_eq_error failed, ?_⟩
  rw [ne_eq, tree?_mismatchOf_eq_none_iff, not_exists]
  exact drawn

/-- A value is refused for a reason that cannot be drawn when the part at fault cannot be shown. -/
theorem undrawn_iff {value : Json} (distinct : value.KeysDiffer) :
    (∃ mismatch, ofWire value = .error mismatch ∧ mismatch.tree? = none) ↔
      ∃ part, AtFault value part ∧ part.shown? = none := by
  constructor
  · rintro ⟨mismatch, failed, undrawn⟩
    by_cases object : ∃ members, value = .object members
    · rcases object with ⟨members, rfl⟩
      by_cases wrapped : ∃ (family : Family) (content : Json), members = [(family.wireName, content)]
      · rcases wrapped with ⟨family, content, rfl⟩
        cases read : ofContent family content with
        | ok operation =>
            have succeeds := (ofWire_eq_ok_iff_ofFamily distinct).mpr
              ⟨family, (ofFamily_eq_ok_iff distinct).mpr ⟨content, rfl, read⟩⟩
            cases failed.symm.trans succeeds
        | error inner =>
            cases failed.symm.trans (ofWire_of_content_error read)
            rw [tree?_against_eq_none_iff] at undrawn
            cases content with
            | object members =>
                rcases ((examines_ofContent family members).fails inner read).mp undrawn
                  with ⟨part, unmet, unshown⟩
                exact ⟨part, .field unmet, unshown⟩
            | null | bool | number | text | array =>
                cases read
                refine ⟨_, .content (by simp), ?_⟩
                simpa [ContentMismatch.tree?, expectedLine?] using undrawn
      · simp only [not_exists] at wrapped
        rcases ofWire_of_unwrapped distinct wrapped with ⟨against, refused, drawn⟩
        cases failed.symm.trans refused
        exact absurd undrawn drawn
    · simp only [not_exists] at object
      cases failed.symm.trans (ofWire_of_not_object object)
      rcases tree?_mismatchOf_eq_none_iff.mp undrawn with ⟨family, unshown⟩
      exact ⟨value, .whole object, by simpa [FamilyMismatch.tree?, expectedLine?] using unshown⟩
  · rintro ⟨part, fault, unshown⟩
    cases fault with
    | whole object =>
        refine ⟨_, ofWire_of_not_object object, tree?_mismatchOf_eq_none_iff.mpr ⟨.register, ?_⟩⟩
        simp [FamilyMismatch.tree?, expectedLine?, unshown]
    | @content family _ object =>
        have failed : ofContent family part = .error (.notObject part) := by
          cases part with
          | object members => exact absurd rfl (object members)
          | null | bool | number | text | array => rfl
        refine ⟨_, ofWire_of_content_error failed, tree?_against_eq_none_iff.mpr ?_⟩
        simp [ContentMismatch.tree?, expectedLine?, unshown]
    | @field family members part unmet =>
        have examined := examines_ofContent family members
        cases read : ofContent family (.object members) with
        | ok operation =>
            rcases not_holds_of_firstUnmet unmet with ⟨field, among, fails⟩
            exact absurd (examined.succeeds.mp ⟨operation, read⟩ field among) fails
        | error mismatch =>
            exact ⟨_, ofWire_of_content_error read, tree?_against_eq_none_iff.mpr
              ((examined.fails mismatch read).mpr ⟨part, unmet, unshown⟩)⟩

/-! ## Contents that are read alike -/

theorem ofWire_congr
    {family : Family}
    {content other : Json}
    (same : ofContent family content = ofContent family other) :
    ofWire (.object [(family.wireName, content)]) =
      ofWire (.object [(family.wireName, other)]) := by
  have each : ∀ target, ofFamily target (.object [(family.wireName, content)]) =
      ofFamily target (.object [(family.wireName, other)]) := by
    intro target
    rw [ofFamily_wrapped, ofFamily_wrapped]
    split
    · next own =>
        subst own
        rw [same]
    · rfl
  simp only [ofWire, each]

theorem merged_wrapped (name : String) (members : List (String × Json)) :
    (Json.object [(name, .object members)]).merged =
      .object [(name, .object (Json.kept (Json.mergedMembers members)))] := by
  simp [Json.merged, Json.mergedMembers, Json.ofMembers_eq, Json.kept, Json.putMember]

/--
Fields with different names are read alike in every order, and whatever else
stands beside them under other names.
-/
theorem ofWire_rearranged
    {family : Family}
    {fields others extra : List (String × Json)}
    (distinct : Json.Distinct fields)
    (perm : others.Perm (fields ++ extra))
    (foreign : ∀ member ∈ extra, ∀ field ∈ family.fields, member.1 ≠ field.1) :
    ofWire (Json.object [(family.wireName, .object others)]).merged =
      ofWire (Json.object [(family.wireName, .object fields)]).merged := by
  have kept : Json.Distinct (Json.mergedMembers fields) := by
    simpa [Json.Distinct, Json.mergedMembers_eq_map, Function.comp_def] using distinct
  have arranged : (Json.mergedMembers others).reverse.Perm
      (Json.mergedMembers fields ++ Json.mergedMembers extra) := by
    refine (List.reverse_perm _).trans ?_
    simpa [Json.mergedMembers_eq_map] using perm.map fun member => (member.1, member.2.merged)
  rw [merged_wrapped, merged_wrapped]
  refine ofWire_congr (ofContent_congr fun field among => ?_)
  have absent : ∀ member ∈ Json.mergedMembers extra, member.1 ≠ field.1 := by
    intro member added
    rw [Json.mergedMembers_eq_map] at added
    rcases List.mem_map.mp added with ⟨source, written, rfl⟩
    exact foreign source written field among
  rw [Json.member?_kept, Json.member?_kept, kept.member?_perm_append arranged absent,
    kept.member?_perm (List.reverse_perm _)]

/-! ## Documents -/

/-- What is read from a document is what is read from the value that it denotes. -/
theorem decode_of_denotes
    {document : String}
    {value : Json}
    (denotes : Json.Denotes document value) :
    decode document = (ofWire value).mapError .ofMismatch := by
  simp only [decode, Json.parse?_eq_some_iff.mpr denotes]

theorem decode_eq_ok_iff {document : String} {operation : Operation} :
    decode document = .ok operation ↔
      ∃ value, Json.Denotes document value ∧ ofWire value = .ok operation := by
  constructor
  · intro read
    simp only [decode] at read
    split at read
    · next value parsed =>
        exact ⟨value, Json.parse?_eq_some_iff.mp parsed, ok_of_mapError_eq_ok read⟩
    · cases read
  · rintro ⟨value, denotes, read⟩
    rw [decode_of_denotes denotes, read]
    rfl

/-- A refusal is not reported exactly when what stands against the value cannot be drawn. -/
theorem decode_indescribable_iff {document : String} :
    decode document = .error .indescribable ↔
      ∃ value, Json.Denotes document value ∧
        ∃ mismatch, ofWire value = .error mismatch ∧ mismatch.tree? = none := by
  constructor
  · intro failed
    simp only [decode] at failed
    split at failed
    · next value parsed =>
        rcases error_of_mapError_eq_error failed with ⟨mismatch, refused, same⟩
        refine ⟨value, Json.parse?_eq_some_iff.mp parsed, mismatch, refused, ?_⟩
        rw [DecodeFault.ofMismatch] at same
        split at same
        · cases same
        · next undrawn => simpa using undrawn
    · cases failed
  · rintro ⟨value, denotes, mismatch, refused, undrawn⟩
    rw [decode_of_denotes denotes, refused]
    simp [Except.mapError, DecodeFault.ofMismatch, undrawn]

/-- A refusal is not reported exactly when the part at fault cannot be shown. -/
theorem decode_indescribable_iff_atFault {document : String} :
    decode document = .error .indescribable ↔
      ∃ value part, Json.Denotes document value ∧ AtFault value part ∧ part.shown? = none := by
  rw [decode_indescribable_iff]
  constructor
  · rintro ⟨value, denotes, undrawn⟩
    rcases (undrawn_iff denotes.keysDiffer).mp undrawn with ⟨part, fault, unshown⟩
    exact ⟨value, part, denotes, fault, unshown⟩
  · rintro ⟨value, part, denotes, fault, unshown⟩
    exact ⟨value, denotes, (undrawn_iff denotes.keysDiffer).mpr ⟨part, fault, unshown⟩⟩

theorem kind_malformed (fault : DecodeFault) :
    (Fault.malformed fault).kind =
      match fault with
      | .indescribable => "Defect"
      | _ => "SerializationError" := by
  cases fault <;> rfl

/--
What is accepted, and as what. A text is accepted exactly when it is a document
whose value has the shape of an operation in transit, and it is read as the one
operation whose fields the value holds. Any other text is refused, and the
refusal is reported unless the part at fault cannot be shown. Nothing matters
but the value that a document denotes, and of the fields that are written
neither the order nor what stands beside them; no value is of two families.
-/
theorem decode_acceptance (document : String) :
    ((∃ operation, decode document = .ok operation) ↔
      ∃ value, Json.Denotes document value ∧ HasShape value) ∧
    (∀ operation, decode document = .ok operation ↔
      operation.MayTravel ∧ ∃ value, Json.Denotes document value ∧ operation.IsIn value) ∧
    (∀ fault, decode document = .error fault →
      ((Fault.malformed fault).kind = "Defect" ↔
        ∃ value part, Json.Denotes document value ∧ AtFault value part ∧ part.shown? = none) ∧
      ((Fault.malformed fault).kind ≠ "Defect" →
        (Fault.malformed fault).kind = "SerializationError")) ∧
    (∀ other value, Json.Denotes document value → Json.Denotes other value →
      decode other = decode document) ∧
    (∀ (other : String) (family : Family) (fields others extra : List (String × Json)),
      Json.Writes document (.object [(family.wireName, .object fields)]) →
      Json.Writes other (.object [(family.wireName, .object others)]) →
      Json.Distinct fields → others.Perm (fields ++ extra) →
      (∀ member ∈ extra, ∀ field ∈ family.fields, member.1 ≠ field.1) →
      decode other = decode document) ∧
    ∀ (value : Json) (left right : Family) (first second : Operation),
      Json.Denotes document value → ofFamily left value = .ok first →
      ofFamily right value = .ok second → left = right := by
  refine ⟨?_, ?_, ?_, ?_, ?_, ?_⟩
  · simp only [decode_eq_ok_iff]
    constructor
    · rintro ⟨operation, value, denotes, read⟩
      exact ⟨value, denotes, (exists_ofWire_eq_ok_iff denotes.keysDiffer).mp ⟨operation, read⟩⟩
    · rintro ⟨value, denotes, shape⟩
      rcases (exists_ofWire_eq_ok_iff denotes.keysDiffer).mpr shape with ⟨operation, read⟩
      exact ⟨operation, value, denotes, read⟩
  · intro operation
    rw [decode_eq_ok_iff]
    constructor
    · rintro ⟨value, denotes, read⟩
      rcases (ofWire_eq_ok_iff denotes.keysDiffer).mp read with ⟨travels, within⟩
      exact ⟨travels, value, denotes, within⟩
    · rintro ⟨travels, value, denotes, within⟩
      exact ⟨value, denotes, (ofWire_eq_ok_iff denotes.keysDiffer).mpr ⟨travels, within⟩⟩
  · intro fault failed
    have unreported : fault = .indescribable ↔
        ∃ value part, Json.Denotes document value ∧ AtFault value part ∧ part.shown? = none := by
      rw [← Except.error.injEq, ← failed, decode_indescribable_iff_atFault]
    rw [← unreported, kind_malformed]
    cases fault <;> simp
  · intro other value denotes otherDenotes
    rw [decode_of_denotes denotes, decode_of_denotes otherDenotes]
  · intro other family fields others extra written otherWritten distinct perm foreign
    rw [decode_of_denotes ⟨_, written, rfl⟩, decode_of_denotes ⟨_, otherWritten, rfl⟩,
      ofWire_rearranged distinct perm foreign]
  · intro value left right first second denotes one two
    exact family_unique denotes.keysDiffer one two

/-- The fields of an addition in another order, with blanks, an escape and one more field. -/
theorem decode_acceptance_rearranged :
    decode (" \x7b\n\"GSet\" : \x7b\"more\":[null], \"action\":\"\\u0041dd\"," ++
        "\"value\":\"e\",\"key\":\"k\"\x7d \x7d") =
      decode "\x7b\"GSet\":\x7b\"key\":\"k\",\"value\":\"e\",\"action\":\"Add\"\x7d\x7d" := by
  have rearranged := (decode_acceptance
    "\x7b\"GSet\":\x7b\"key\":\"k\",\"value\":\"e\",\"action\":\"Add\"\x7d\x7d").2.2.2.2.1
  refine rearranged _ .set [("key", .text "k"), ("value", .text "e"), ("action", .text "Add")]
    [("more", .array [.null]), ("action", .text "Add"), ("value", .text "e"), ("key", .text "k")]
    [("more", .array [.null])] (Json.writes_iff.mpr (by decide +kernel))
    (Json.writes_iff.mpr (by decide +kernel)) (by simp [Json.Distinct]) ?_ (by decide)
  exact List.reverse_perm [("key", Json.text "k"), ("value", Json.text "e"),
    ("action", Json.text "Add"), ("more", Json.array [Json.null])]

/-- A key that cannot be shown makes a text fail in another way than a malformed one. -/
theorem decode_unreported :
    ¬ ∀ document fault, decode document = .error fault →
      (Fault.malformed fault).kind = "SerializationError" := by
  intro reported
  let document := "\x7b\"GSet\":\x7b\"key\":\x7b\"constructor\":\x7b\"name\":" ++
    "\x7b\"toString\":1\x7d\x7d\x7d\x7d\x7d"
  have broken : (decode document).toOption = none ∧
      ∀ fault ∈ (match decode document with | .error fault => some fault | .ok _ => none),
        (Fault.malformed fault).kind = "Defect" := by
    decide +kernel
  cases read : decode document with
  | ok operation => simp [read, Except.toOption] at broken
  | error fault =>
      have kind := reported document fault read
      simp [read, kind] at broken

end Operation

end ConvergentStore
