import ConvergentStore.Proofs.Json.Members
import ConvergentStore.Proofs.Operation.Wire

/-!
# The fields of operations in transit

A family's operations have fields, and there is a demand on each. Members are
read as an operation when each field of the family is among them and meets the
demand on it, whatever else is there; the operation that is read is the one
whose fields the members hold. Members that are refused are refused for the
first field that does not meet the demand on it, and the reason cannot be
described when what that field holds cannot be shown.
-/

namespace ConvergentStore

/-! ## Fields -/

/-- What a field of an operation in transit must hold. -/
inductive Demand where
  | text
  | count
  | add

/-- A value meets a demand: it is a text, a natural number of the safe range, or the word `Add`. -/
def Demand.Met : Demand → Json → Prop
  | .text, value => ∃ text, value = .text text
  | .count, value =>
      ∃ number n, value = .number number ∧ n ≤ Binary64.largestSafe ∧
        number.equals (.ofNat n) = true
  | .add, value => value = .text "Add"

/-- The fields of a family's operations, in the order in which they are examined. -/
def Family.fields : Family → List (String × Demand)
  | .register => [("key", .text), ("value", .text), ("timestamp", .count)]
  | .counter => [("key", .text), ("increment", .count)]
  | .set => [("key", .text), ("value", .text), ("action", .add)]

namespace Operation

/-- A field is among members and meets the demand on it. -/
def Holds (members : List (String × Json)) (field : String × Demand) : Prop :=
  ∃ part, Json.member? field.1 members = some part ∧ field.2.Met part

/-- The first field that does not meet the demand on it holds the given part. -/
def FirstUnmet (members : List (String × Json)) : List (String × Demand) → Json → Prop
  | [], _ => False
  | field :: rest, part =>
      Json.member? field.1 members = some part ∧ ¬ field.2.Met part ∨
        Holds members field ∧ FirstUnmet members rest part

/-! ## Reading fields -/

/--
A reading examines fields in turn: it succeeds when each field meets the demand
on it, and a reason for its failure cannot be described when the first field
that does not holds something that cannot be shown.
-/
structure Examines
    {Result : Type}
    (family : Family)
    (members : List (String × Json))
    (fields : List (String × Demand))
    (reading : Except ContentMismatch Result) : Prop where
  succeeds : (∃ result, reading = .ok result) ↔ ∀ field ∈ fields, Holds members field
  fails : ∀ mismatch, reading = .error mismatch →
    (mismatch.tree? family = none ↔
      ∃ part, FirstUnmet members fields part ∧ part.shown? = none)

section

variable
  {Result : Type}
  {family : Family}
  {members : List (String × Json)}
  {name : String}
  {demand : Demand}
  {value : Json}

/-- A check of a value says whether the value meets a demand, and if not, why. -/
def Checks (family : Family) (demand : Demand) (value : Json)
    (checked : Except ContentMismatch Result) : Prop :=
  match checked with
  | .ok _ => demand.Met value
  | .error mismatch =>
      ¬ demand.Met value ∧ (mismatch.tree? family = none ↔ value.shown? = none)

/-- A reading of one field looks the field up and checks what it holds. -/
theorem examines_field
    {check : Json → Except ContentMismatch Result}
    (checks : ∀ value, Checks family demand value (check value)) :
    Examines family members [(name, demand)] (field name members >>= check) := by
  cases found : Json.member? name members with
  | none =>
      have missing : field name members >>= check = .error (.missing name) := by
        simp [field, found, bind, Except.bind]
      rw [missing]
      constructor
      · simp [Holds, found]
      · rintro _ ⟨⟩
        simp [ContentMismatch.tree?, FirstUnmet, found]
  | some value =>
      have checked : field name members >>= check = check value := by
        simp [field, found, bind, Except.bind]
      have verdict := checks value
      rw [checked]
      cases result : check value with
      | ok result =>
          rw [result] at verdict
          have met : demand.Met value := verdict
          constructor
          · simp [Holds, found, met]
          · rintro _ ⟨⟩
      | error mismatch =>
          rw [result] at verdict
          have unmet : ¬ demand.Met value := verdict.1
          constructor
          · simp [Holds, found, unmet]
          · rintro _ ⟨⟩
            simp [FirstUnmet, found, unmet, verdict.2]

/-- A reading that examines one field and goes on with the others examines them all. -/
theorem Examines.bind
    {First : Type}
    {field : String × Demand}
    {rest : List (String × Demand)}
    {first : Except ContentMismatch First}
    {next : First → Except ContentMismatch Result}
    (one : Examines family members [field] first)
    (others : ∀ value, Examines family members rest (next value)) :
    Examines family members (field :: rest) (first >>= next) := by
  cases first with
  | error mismatch =>
      have unmet : ¬ Holds members field := by
        intro holds
        rcases one.succeeds.mpr (by simpa using holds) with ⟨_, ⟨⟩⟩
      constructor
      · constructor
        · rintro ⟨_, ⟨⟩⟩
        · intro all
          exact absurd (all field List.mem_cons_self) unmet
      · rintro _ ⟨⟩
        rw [one.fails mismatch rfl]
        simp [FirstUnmet, unmet]
  | ok value =>
      have holds : Holds members field := one.succeeds.mp ⟨value, rfl⟩ field List.mem_cons_self
      have met : ∀ part, Json.member? field.1 members = some part → field.2.Met part := by
        intro part found
        rcases holds with ⟨held, same, met⟩
        cases found.symm.trans same
        exact met
      constructor
      · refine (others value).succeeds.trans ?_
        simp [holds]
      · intro mismatch failed
        rw [(others value).fails mismatch failed]
        refine exists_congr fun part => and_congr_left fun _ => ?_
        simp only [FirstUnmet, holds, true_and]
        exact ⟨.inr, fun unmet => unmet.resolve_left fun here => here.2 (met part here.1)⟩

theorem examines_textField (family : Family) (members : List (String × Json)) (name : String) :
    Examines family members [(name, .text)] (textField name members) := by
  refine examines_field fun value => ?_
  cases value with
  | text text => exact ⟨text, rfl⟩
  | null | bool | number | array | object =>
      exact ⟨nofun, by simp [ContentMismatch.tree?, expectedLine?]⟩

theorem examines_addField (family : Family) (members : List (String × Json)) (name : String) :
    Examines family members [(name, .add)] (addField name members) := by
  refine examines_field fun value => ?_
  split
  · rfl
  · next other => exact ⟨other, by simp [ContentMismatch.tree?, expectedLine?]⟩

/-- A number that falls short of a natural number of the safe range can be shown. -/
theorem tree?_of_countOf
    {mismatch : NumberMismatch}
    (failed : countOf value = .error mismatch) :
    mismatch.tree? = none ↔ value.shown? = none := by
  cases value with
  | number n =>
      simp only [countOf] at failed
      split at failed
      · cases failed
        simp [NumberMismatch.tree?, Json.shown?]
      split at failed
      · cases failed
        simp [NumberMismatch.tree?, Json.shown?]
      · cases failed
  | null | bool | text | array | object =>
      cases failed
      simp [NumberMismatch.tree?, expectedLine?]

theorem met_count_iff : Demand.count.Met value ↔ ∃ x, countOf value = .ok x := by
  simp only [Demand.Met, countOf_eq_ok_iff, Binary64.isCount_iff]
  exact ⟨fun ⟨x, n, same, natural⟩ => ⟨x, same, n, natural⟩,
    fun ⟨x, same, n, natural⟩ => ⟨x, n, same, natural⟩⟩

theorem examines_countField (family : Family) (members : List (String × Json)) (name : String) :
    Examines family members [(name, .count)] (countField name members) := by
  refine examines_field fun value => ?_
  cases counted : countOf value with
  | ok x => exact met_count_iff.mpr ⟨x, counted⟩
  | error mismatch =>
      refine ⟨?_, by simp [ContentMismatch.tree?, tree?_of_countOf counted]⟩
      rw [met_count_iff]
      rintro ⟨x, same⟩
      cases counted.symm.trans same

/-- The content of a family's operation is read by examining the family's fields. -/
theorem examines_ofContent (family : Family) (members : List (String × Json)) :
    Examines family members family.fields (ofContent family (.object members)) := by
  have done : ∀ operation : Operation, Examines family members [] (.ok operation) :=
    fun operation => ⟨by simp, nofun⟩
  cases family with
  | register =>
      exact (examines_textField _ _ _).bind fun _ => (examines_textField _ _ _).bind fun _ =>
        (examines_countField _ _ _).bind fun _ => done _
  | counter =>
      exact (examines_textField _ _ _).bind fun _ => (examines_countField _ _ _).bind fun _ => done _
  | set =>
      exact (examines_textField _ _ _).bind fun _ => (examines_textField _ _ _).bind fun _ =>
        (examines_addField _ _ _).bind fun _ => done _

end

theorem not_holds_of_firstUnmet
    {members : List (String × Json)}
    {fields : List (String × Demand)}
    {part : Json}
    (unmet : FirstUnmet members fields part) :
    ∃ field ∈ fields, ¬ Holds members field := by
  induction fields with
  | nil => cases unmet
  | cons field rest ih =>
      rcases unmet with ⟨found, fails⟩ | ⟨_, later⟩
      · refine ⟨field, List.mem_cons_self, ?_⟩
        rintro ⟨held, same, met⟩
        cases found.symm.trans same
        exact fails met
      · rcases ih later with ⟨other, among, fails⟩
        exact ⟨other, List.mem_cons_of_mem _ among, fails⟩

/-! ## Reading contents -/

theorem field_eq_ok_iff {name : String} {members : List (String × Json)} {value : Json} :
    field name members = .ok value ↔ Json.member? name members = some value := by
  cases found : Json.member? name members <;> simp [field, found]

theorem textField_eq_ok
    {name text : String}
    {members : List (String × Json)}
    (read : textField name members = .ok text) :
    Json.member? name members = some (.text text) := by
  rcases ok_of_bind_eq_ok read with ⟨value, found, checked⟩
  rw [field_eq_ok_iff.mp found]
  split at checked
  · cases checked
    rfl
  · cases checked

theorem addField_eq_ok
    {name : String}
    {members : List (String × Json)}
    (read : addField name members = .ok ()) :
    Json.member? name members = some (.text "Add") := by
  rcases ok_of_bind_eq_ok read with ⟨value, found, checked⟩
  rw [field_eq_ok_iff.mp found]
  split at checked
  · rfl
  · cases checked

/-- The operation that is read from members is of the family, and they hold its fields. -/
theorem content_of_ofContent
    {family : Family}
    {members : List (String × Json)}
    {operation : Operation}
    (read : ofContent family (.object members) = .ok operation) :
    operation.family = family ∧
      ∀ field ∈ operation.content, Json.member? field.1 members = some field.2 := by
  cases family with
  | register =>
      rcases ok_of_bind_eq_ok read with ⟨_, key, read⟩
      rcases ok_of_bind_eq_ok read with ⟨_, value, read⟩
      rcases ok_of_bind_eq_ok read with ⟨_, timestamp, read⟩
      cases read
      simp [family, content, textField_eq_ok key, textField_eq_ok value,
        (countField_eq_ok timestamp).1]
  | counter =>
      rcases ok_of_bind_eq_ok read with ⟨_, key, read⟩
      rcases ok_of_bind_eq_ok read with ⟨_, amount, read⟩
      cases read
      simp [family, content, textField_eq_ok key, (countField_eq_ok amount).1]
  | set =>
      rcases ok_of_bind_eq_ok read with ⟨_, key, read⟩
      rcases ok_of_bind_eq_ok read with ⟨_, element, read⟩
      rcases ok_of_bind_eq_ok read with ⟨_, action, read⟩
      cases read
      simp [family, content, textField_eq_ok key, textField_eq_ok element, addField_eq_ok action]

/-- Only the members under the names of the family's fields matter. -/
theorem ofContent_congr
    {family : Family}
    {members others : List (String × Json)}
    (agree : ∀ field ∈ family.fields,
      Json.member? field.1 members = Json.member? field.1 others) :
    ofContent family (.object members) = ofContent family (.object others) := by
  have same : ∀ field ∈ family.fields,
      Operation.field field.1 members = Operation.field field.1 others := by
    intro field among
    rw [Operation.field, Operation.field, agree field among]
  cases family <;>
    simp_all [Family.fields, ofContent, textField, countField, addField]

theorem map_fst_content (operation : Operation) :
    operation.content.map Prod.fst = operation.family.fields.map Prod.fst := by
  cases operation <;> rfl

theorem distinct_content (operation : Operation) : Json.Distinct operation.content := by
  cases operation <;> simp [Json.Distinct, content]

theorem ofContent_eq_ok_iff
    {family : Family}
    {members : List (String × Json)}
    {operation : Operation} :
    ofContent family (.object members) = .ok operation ↔
      operation.family = family ∧ operation.MayTravel ∧
        ∀ field ∈ operation.content, Json.member? field.1 members = some field.2 := by
  constructor
  · intro read
    rcases content_of_ofContent read with ⟨named, held⟩
    exact ⟨named, mayTravel_of_ofContent read, held⟩
  · rintro ⟨rfl, travels, held⟩
    rw [← ofContent_content travels]
    refine ofContent_congr fun field among => ?_
    have named : field.1 ∈ operation.content.map Prod.fst := by
      rw [map_fst_content]
      exact List.mem_map_of_mem among
    rcases List.mem_map.mp named with ⟨⟨name, value⟩, carried, same⟩
    cases same
    rw [held _ carried, (distinct_content operation).member?_eq_some_iff.mpr carried]

end Operation

end ConvergentStore
