import ConvergentStore.Proofs.Replica.Effect
import Mathlib.Data.List.Induction
import Mathlib.Data.List.MinMax
import Mathlib.Data.Option.Basic

/-!
# The foremost write

Of the writes that operations make under a key the foremost one is the first of
those with the latest timestamp. It is what a register holds
(`entry?_replay_eq`), so that registers which have seen the same writes can
only differ where several latest ones bring different values
(`registers_hold_foremost`).
-/

namespace ConvergentStore.Register

open Binary64 (largestSafe)

/-! ## Acceptance -/

/-- Whether an operation is a write that is stamped with a natural number of the safe range. -/
def Accepts : Operation → Prop
  | .registerSet _ _ timestamp =>
      ∃ n : Nat, n ≤ largestSafe ∧ timestamp.equals (.ofNat n) = true
  | _ => False

/-- Every register accepts the same operations. -/
theorem exists_apply_eq_ok_iff
    (operation : Operation)
    (register : Register) :
    (∃ next, apply operation register = .ok next) ↔ Accepts operation := by
  cases operation with
  | registerSet key value timestamp =>
      rw [Accepts, ← Binary64.isCount_iff]
      cases count : timestamp.isCount with
      | true => exact ⟨fun _ => rfl, fun _ => ⟨_, if_pos count⟩⟩
      | false => simp [apply, count]
  | counterIncrement | setAdd =>
      constructor
      · rintro ⟨next, applied⟩
        cases applied
      · intro accepts
        cases accepts

theorem exists_apply_eq_error_iff
    (operation : Operation)
    (register : Register) :
    (∃ refusal, apply operation register = .error refusal) ↔ ¬ Accepts operation := by
  rw [← exists_apply_eq_ok_iff operation register]
  cases apply operation register <;> simp

/-! ## Entries -/

/-- The entry that an operation brings under a key, if it brings one. -/
def brought? (key : String) : Operation → Option Entry
  | .registerSet target value timestamp =>
      if target = key ∧ timestamp.isCount = true then some ⟨value, timestamp⟩ else none
  | _ => none

/-- The entries that operations bring under a key, in turn. -/
def brought (key : String) (operations : List Operation) : List Entry :=
  operations.filterMap (brought? key)

theorem brought_concat
    (key : String)
    (earlier : List Operation)
    (last : Operation) :
    brought key (earlier ++ [last]) = brought key earlier ++ (brought? key last).toList := by
  rw [brought, List.filterMap_append]
  cases brings : brought? key last <;> simp [brought, brings]

theorem brought?_eq_some_iff
    {key : String}
    {operation : Operation}
    {entry : Entry} :
    brought? key operation = some entry ↔
      operation = .registerSet key entry.value entry.timestamp ∧
        entry.timestamp.isCount = true := by
  cases operation with
  | registerSet target value timestamp =>
      simp only [brought?, Option.ite_none_right_eq_some, Option.some.injEq,
        Operation.registerSet.injEq]
      constructor
      · rintro ⟨⟨rfl, count⟩, rfl⟩
        exact ⟨⟨rfl, rfl, rfl⟩, count⟩
      · rintro ⟨⟨rfl, rfl, rfl⟩, count⟩
        exact ⟨⟨rfl, count⟩, rfl⟩
  | counterIncrement | setAdd =>
      constructor
      · intro brings
        cases brings
      · rintro ⟨same, _⟩
        cases same

theorem isCount_of_mem_brought
    {key : String}
    {operations : List Operation}
    {entry : Entry}
    (among : entry ∈ brought key operations) :
    entry.timestamp.isCount = true := by
  rcases List.mem_filterMap.mp among with ⟨operation, _, brings⟩
  exact (brought?_eq_some_iff.mp brings).2

/-- The writes under a key are those of the entries that are brought under it. -/
theorem writes_eq_map_brought
    (key : String)
    (operations : List Operation) :
    writes key operations = (brought key operations).map Entry.write := by
  rw [writes, brought, List.map_filterMap]
  congr 1
  funext operation
  cases operation with
  | registerSet target value timestamp =>
      simp only [written?, brought?]
      split <;> rfl
  | counterIncrement => rfl
  | setAdd => rfl

theorem ne_nil_iff_exists_accepted
    {key : String}
    {operations : List Operation} :
    brought key operations ≠ [] ↔
      ∃ operation ∈ operations, Accepts operation ∧ operation.key = key := by
  constructor
  · intro some
    rcases List.exists_mem_of_ne_nil _ some with ⟨entry, among⟩
    rcases List.mem_filterMap.mp among with ⟨operation, within, brings⟩
    rcases brought?_eq_some_iff.mp brings with ⟨rfl, count⟩
    exact ⟨_, within, Binary64.isCount_iff.mp count, rfl⟩
  · rintro ⟨operation, within, accepted, rfl⟩
    cases operation with
    | registerSet key value timestamp =>
        refine List.ne_nil_of_mem (a := ⟨value, timestamp⟩) (List.mem_filterMap.mpr ?_)
        exact ⟨_, within, brought?_eq_some_iff.mpr ⟨rfl, Binary64.isCount_iff.mpr accepted⟩⟩
    | counterIncrement => cases accepted
    | setAdd => cases accepted

/-! ## The foremost entry -/

/-- The first of the entries with the latest timestamp. -/
def foremost (entries : List Entry) : Option Entry :=
  entries.argmax (·.timestamp.toNat)

/-- One more entry in turn prevails only over earlier timestamps. -/
theorem foremost_concat
    (earlier : List Entry)
    (last : Entry) :
    foremost (earlier ++ [last]) = some (last.over (foremost earlier)) := by
  rw [foremost, List.argmax_concat, foremost]
  cases List.argmax (·.timestamp.toNat) earlier with
  | none => rfl
  | some entry =>
      dsimp only [Entry.over]
      split <;> rfl

/-- A register holds the foremost of the entries that were brought under a key. -/
theorem entry?_replay_eq
    (operations : List Operation)
    (key : String) :
    Register.entry? (Replicated.replay operations empty) key =
      foremost (brought key operations) := by
  induction operations using List.reverseRecOn with
  | nil => rfl
  | append_singleton earlier last ih =>
      rw [Replicated.replay_concat, brought_concat]
      cases last with
      | counterIncrement =>
          rw [commit_of_family_ne (by simp [Operation.family])]
          simpa [brought?] using ih
      | setAdd =>
          rw [commit_of_family_ne (by simp [Operation.family])]
          simpa [brought?] using ih
      | registerSet target value timestamp =>
          rw [commit_registerSet]
          by_cases count : timestamp.isCount = true
          · by_cases here : target = key
            · subst here
              have prevails :
                  Register.entry?
                      (write (Replicated.replay earlier empty) target ⟨value, timestamp⟩) target =
                    some (Entry.over ⟨value, timestamp⟩
                      (Register.entry? (Replicated.replay earlier empty) target)) :=
                entry?_write_self (stamped_replay earlier) target count
              simp only [count, ↓reduceIte, brought?, and_self, Option.toList_some,
                foremost_concat]
              rw [prevails, ih]
            · simpa [brought?, count, here, entry?_write_of_ne _ _ here] using ih
          · simpa [brought?, count] using ih

/-! ## Equal registers -/

/-- Whether two entries have the same value and timestamps that are equal as numbers. -/
def Entry.Equals (one other : Entry) : Prop :=
  one.value = other.value ∧ one.timestamp.equals other.timestamp = true

/-- Whether two registers hold equal entries under the same keys. -/
def Equals (left right : Register) : Prop :=
  ∀ key, Option.Rel Entry.Equals (left.entry? key) (right.entry? key)

section

variable
  {left right : List Operation}
  {key : String}
  (same : ∀ write, write ∈ writes key left ↔ write ∈ writes key right)

include same

theorem brought_eq_nil_iff : brought key left = [] ↔ brought key right = [] := by
  rw [← List.map_eq_nil_iff (f := Entry.write), ← writes_eq_map_brought,
    ← List.map_eq_nil_iff (f := Entry.write), ← writes_eq_map_brought]
  simp only [List.eq_nil_iff_forall_not_mem, same]

theorem foremost_eq_none_iff :
    foremost (brought key left) = none ↔ foremost (brought key right) = none := by
  rw [foremost, foremost, List.argmax_eq_none, List.argmax_eq_none]
  exact brought_eq_nil_iff same

/-- No entry of one list is later than the foremost one of another with the same writes. -/
theorem toNat_le_of_foremost
    {entry last : Entry}
    (among : entry ∈ brought key left)
    (final : foremost (brought key right) = some last) :
    entry.timestamp.toNat ≤ last.timestamp.toNat := by
  have wrote : entry.write ∈ writes key left := by
    rw [writes_eq_map_brought]
    exact List.mem_map_of_mem among
  rw [same, writes_eq_map_brought] at wrote
  rcases List.mem_map.mp wrote with ⟨other, within, alike⟩
  have second : other.timestamp.toNat = entry.timestamp.toNat := congrArg Write.second alike
  rw [← second]
  exact List.le_of_mem_argmax (f := (·.timestamp.toNat)) within final

end

section

variable
  {left right : List Operation}
  {key : String}
  {one other : Entry}
  (same : ∀ write, write ∈ writes key left ↔ write ∈ writes key right)
  (first : foremost (brought key left) = some one)
  (second : foremost (brought key right) = some other)

include same first second

/-- The foremost entries of lists with the same writes have equal timestamps. -/
theorem equals_of_foremost : one.timestamp.equals other.timestamp = true := by
  have oneAmong : one ∈ brought key left := List.argmax_mem first
  have otherAmong : other ∈ brought key right := List.argmax_mem second
  rw [Binary64.equals_iff_toNat_eq (isCount_of_mem_brought oneAmong)
    (isCount_of_mem_brought otherAmong)]
  exact Nat.le_antisymm (toNat_le_of_foremost same oneAmong second)
    (toNat_le_of_foremost (fun write => (same write).symm) otherAmong first)

/-- If no two of the writes have one timestamp, the foremost entries are the same write. -/
theorem value_eq_of_apart
    (apart : ∀ write ∈ writes key left, ∀ another ∈ writes key left,
      write.second = another.second → write = another) :
    one.value = other.value := by
  have oneAmong : one ∈ brought key left := List.argmax_mem first
  have otherAmong : other ∈ brought key right := List.argmax_mem second
  have tie : one.write.second = other.write.second :=
    (Binary64.equals_iff_toNat_eq (isCount_of_mem_brought oneAmong)
      (isCount_of_mem_brought otherAmong)).mp (equals_of_foremost same first second)
  have oneWrote : one.write ∈ writes key left := by
    rw [writes_eq_map_brought]
    exact List.mem_map_of_mem oneAmong
  have otherWrote : other.write ∈ writes key left := by
    rw [same, writes_eq_map_brought]
    exact List.mem_map_of_mem otherAmong
  exact congrArg Write.value (apart _ oneWrote _ otherWrote tie)

end

/-- Two lists with the same writes under a key leave equal entries if their foremost values agree. -/
theorem rel_equals_iff
    {left right : List Operation}
    {key : String}
    (same : ∀ write, write ∈ writes key left ↔ write ∈ writes key right) :
    Option.Rel Entry.Equals
        (Register.entry? (Replicated.replay left empty) key)
        (Register.entry? (Replicated.replay right empty) key) ↔
      (foremost (brought key left)).map (·.value) =
        (foremost (brought key right)).map (·.value) := by
  rw [entry?_replay_eq, entry?_replay_eq]
  cases first : foremost (brought key left) with
  | none =>
      rw [(foremost_eq_none_iff same).mp first]
      exact ⟨fun _ => rfl, fun _ => .none⟩
  | some one =>
      cases second : foremost (brought key right) with
      | none =>
          rw [(foremost_eq_none_iff same).mpr second] at first
          cases first
      | some other =>
          simp only [Option.map_some, Option.some.injEq]
          constructor
          · rintro (⟨value, _⟩)
            exact value
          · intro value
            exact .some ⟨value, equals_of_foremost same first second⟩

/--
What operations make of registers that are empty at first. Which operations are
refused does not depend on the registers. The keys are those of the accepted
writes, and under each key stands the first of them with the latest timestamp.
So registers that have seen the same accepted writes, in any order and however
often, are equal if and only if under each key their foremost writes bring the
same value; and they are equal if no two writes of a key have one timestamp.
-/
theorem registers_hold_foremost :
    (∀ operation (register : Register),
        ((∃ refusal, Replicated.apply operation register = .error refusal) ↔
            ¬ Accepts operation) ∧
          (¬ Accepts operation → (Replicated.commit operation register).2 = register)) ∧
      (∀ operations : List Operation,
        let register := Replicated.replay operations empty
        ∀ key,
          (key ∈ Replicated.keys register ↔
              ∃ operation ∈ operations, Accepts operation ∧ operation.key = key) ∧
            register.entry? key = foremost (brought key operations)) ∧
      ∀ left right : List Operation,
        (∀ key write, write ∈ writes key left ↔ write ∈ writes key right) →
          (Equals (Replicated.replay left empty) (Replicated.replay right empty) ↔
              ∀ key, (foremost (brought key left)).map (·.value) =
                (foremost (brought key right)).map (·.value)) ∧
            ((∀ key, ∀ write ∈ writes key left, ∀ another ∈ writes key left,
                write.second = another.second → write = another) →
              Equals (Replicated.replay left empty) (Replicated.replay right empty)) := by
  refine ⟨?refused, ?held, ?equal⟩
  case refused =>
    intro operation register
    refine ⟨exists_apply_eq_error_iff operation register, ?_⟩
    intro declined
    rcases (exists_apply_eq_error_iff operation register).mpr declined with ⟨refusal, refused⟩
    exact Replicated.commit_of_apply_eq_error refused
  case held =>
    intro operations register key
    refine ⟨?_, entry?_replay_eq operations key⟩
    have keyed : key ∈ Replicated.keys register ↔ ∃ entry, register.entry? key = some entry :=
      Table.mem_keys_iff
    rw [keyed, entry?_replay_eq, ← ne_nil_iff_exists_accepted, ← Option.ne_none_iff_exists']
    exact not_congr List.argmax_eq_none
  case equal =>
    intro left right same
    have decided : Equals (Replicated.replay left empty) (Replicated.replay right empty) ↔
        ∀ key, (foremost (brought key left)).map (·.value) =
          (foremost (brought key right)).map (·.value) :=
      forall_congr' fun key => rel_equals_iff (same key)
    refine ⟨decided, ?_⟩
    intro apart
    refine decided.mpr fun key => ?_
    cases first : foremost (brought key left) with
    | none =>
        rw [(foremost_eq_none_iff (same key)).mp first]
    | some one =>
        cases second : foremost (brought key right) with
        | none =>
            rw [(foremost_eq_none_iff (same key)).mpr second] at first
            cases first
        | some other =>
            exact congrArg some (value_eq_of_apart (same key) first second (apart key))

/-- Two latest writes that come in either order leave different values. -/
theorem registers_hold_foremost_tied :
    let left : List Operation :=
      [.registerSet "k" "early" 3, .registerSet "k" "one" 5, .registerSet "k" "other" 5]
    let right := left.reverse
    (∀ key write, write ∈ writes key left ↔ write ∈ writes key right) ∧
      ¬ Equals (Replicated.replay left empty) (Replicated.replay right empty) := by
  intro left right
  have same : ∀ key write, write ∈ writes key left ↔ write ∈ writes key right := fun key write =>
    ((List.reverse_perm left).symm.filterMap (written? key)).mem_iff
  refine ⟨same, fun equal => ?_⟩
  have agreed := (registers_hold_foremost.2.2 left right same).1.mp equal "k"
  have apart : (foremost (brought "k" left)).map (·.value) ≠
      (foremost (brought "k" right)).map (·.value) := by
    decide +kernel
  exact apart agreed

end ConvergentStore.Register
