import ConvergentStore.Proofs.Number.Counts
import ConvergentStore.Proofs.Replicated.Basic
import ConvergentStore.Replicated.Register

/-!
# The write that prevails in a register

After any operations a register holds one of the writes that they make to it,
and none of them is later. Which of several latest writes it holds depends on
the order in which they came; its timestamp does not.
-/

namespace ConvergentStore.Register

/-! ## Writes -/

/-- What a write brings: a value, and the second that it is stamped with. -/
structure Write where
  value : String
  second : Nat
  deriving DecidableEq

/-- The write that brought what is stored. -/
def Entry.write (entry : Entry) : Write :=
  ⟨entry.value, entry.timestamp.toNat⟩

/-- The write that an operation makes under a key. -/
def written? (key : String) : Operation → Option Write
  | .registerSet target value timestamp =>
      if target = key ∧ timestamp.isCount = true then some ⟨value, timestamp.toNat⟩ else none
  | _ => none

/-- The writes that operations make under a key, in turn. -/
def writes (key : String) (operations : List Operation) : List Write :=
  operations.filterMap (written? key)

theorem writes_concat
    (key : String)
    (earlier : List Operation)
    (last : Operation) :
    writes key (earlier ++ [last]) = writes key earlier ++ (written? key last).toList := by
  rw [writes, List.filterMap_append]
  cases made : written? key last <;> simp [writes, made]

/-! ## What writes leave -/

/-- What writes leave behind: nothing if there are none, and else one that no other postdates. -/
def Leaves (writes : List Write) : Option Entry → Prop
  | none => writes = []
  | some entry =>
      entry.timestamp.isCount = true ∧ entry.write ∈ writes ∧
        ∀ write ∈ writes, write.second ≤ entry.write.second

/-- A write that is taken into account leaves the later one of itself and what was stored. -/
theorem leaves_write
    {register : Register}
    {key : String}
    {writes : List Write}
    (incoming : Entry)
    (left : Leaves writes (register.entry? key))
    (count : incoming.timestamp.isCount = true) :
    Leaves (writes ++ [incoming.write]) (Register.entry? (register.write key incoming) key) := by
  cases stored : register.entry? key with
  | none =>
      rw [stored] at left
      obtain rfl : writes = [] := left
      rw [write, stored]
      simp only [Entry.supersedes, ↓reduceIte, entry?, Table.get?_put]
      refine ⟨count, List.mem_singleton_self _, ?_⟩
      intro write among
      exact (List.mem_singleton.mp among) ▸ le_refl _
  | some old =>
      rw [stored] at left
      rcases left with ⟨oldCount, member, latest⟩
      simp only [write, stored, Entry.supersedes]
      split
      · next later =>
          have less : old.write.second < incoming.write.second :=
            (Binary64.lt_iff_toNat_lt oldCount count).mp later
          simp only [Register.entry?, Table.get?_put, ↓reduceIte]
          refine ⟨count, List.mem_append_right _ (List.mem_singleton_self _), ?_⟩
          intro write among
          rcases List.mem_append.mp among with before | last
          · exact (latest write before).trans less.le
          · exact (List.mem_singleton.mp last) ▸ le_refl _
      · next notLater =>
          have notLess : ¬ old.write.second < incoming.write.second := fun less =>
            notLater ((Binary64.lt_iff_toNat_lt oldCount count).mpr less)
          rw [stored]
          refine ⟨oldCount, List.mem_append_left _ member, ?_⟩
          intro write among
          rcases List.mem_append.mp among with before | last
          · exact latest write before
          · exact (List.mem_singleton.mp last) ▸ not_lt.mp notLess

/-- A write leaves what is stored under other keys. -/
theorem entry?_write_of_ne
    (register : Register)
    {key other : String}
    (incoming : Entry)
    (apart : key ≠ other) :
    Register.entry? (register.write key incoming) other = register.entry? other := by
  rw [write]
  split
  · simp only [Register.entry?, Table.get?_put, apart, ↓reduceIte]
  · rfl

/-! ## Replaying -/

/-- Operations of other families leave registers as they are. -/
theorem commit_of_family_ne
    {operation : Operation}
    (foreign : operation.family ≠ .register)
    (register : Register) :
    (Replicated.commit operation register).2 = register := by
  cases operation with
  | registerSet => exact absurd rfl foreign
  | counterIncrement => rfl
  | setAdd => rfl

theorem commit_registerSet
    (register : Register)
    (key value : String)
    (timestamp : Binary64) :
    (Replicated.commit (.registerSet key value timestamp) register).2 =
      if timestamp.isCount then register.write key ⟨value, timestamp⟩ else register := by
  cases count : timestamp.isCount with
  | true => exact Replicated.commit_of_apply_eq_ok (if_pos count)
  | false =>
      have refused : apply (.registerSet key value timestamp) register =
          .error (.timestamp timestamp) := by
        simp [apply, count]
      exact Replicated.commit_of_apply_eq_error refused

/-- A register holds what the writes to it leave behind. -/
theorem leaves_replay (operations : List Operation) (key : String) :
    Leaves (writes key operations) (Register.entry? (Replicated.replay operations empty) key) := by
  induction operations using List.reverseRecOn with
  | nil => rfl
  | append_singleton earlier last ih =>
      rw [Replicated.replay_concat, writes_concat]
      cases last with
      | counterIncrement =>
          rw [commit_of_family_ne (by simp [Operation.family])]
          simpa [written?] using ih
      | setAdd =>
          rw [commit_of_family_ne (by simp [Operation.family])]
          simpa [written?] using ih
      | registerSet target value timestamp =>
          rw [commit_registerSet]
          by_cases count : timestamp.isCount = true
          · by_cases here : target = key
            · subst here
              have step := leaves_write ⟨value, timestamp⟩ ih count
              simpa [written?, count, Entry.write] using step
            · simpa [written?, count, here, entry?_write_of_ne _ _ here] using ih
          · simpa [written?, count] using ih

/-! ## What all orders agree on -/

/-- The maximum of a list is that of its members. -/
theorem max?_eq_of_mem_iff
    {left right : List Nat}
    (same : ∀ n, n ∈ left ↔ n ∈ right) :
    left.max? = right.max? := by
  cases maximum : right.max? with
  | none =>
      obtain rfl := List.max?_eq_none_iff.mp maximum
      rw [List.max?_eq_none_iff, List.eq_nil_iff_forall_not_mem]
      intro n member
      exact List.not_mem_nil ((same n).mp member)
  | some greatest =>
      rw [List.max?_eq_some_iff] at maximum ⊢
      constructor
      · exact (same greatest).mpr maximum.1
      · intro n member
        exact maximum.2 n ((same n).mp member)

section

variable {written : List Write} {stored : Option Entry} (left : Leaves written stored)

include left

/-- The timestamp of what is stored is the latest one of all writes. -/
theorem Leaves.timestamp :
    stored.map (·.timestamp.canonical) =
      (written.map (·.second)).max?.map Binary64.ofNat := by
  cases stored with
  | none =>
      obtain rfl : written = [] := left
      rfl
  | some entry =>
      rcases left with ⟨count, member, latest⟩
      have maximum : (written.map (·.second)).max? = some entry.timestamp.toNat := by
        rw [List.max?_eq_some_iff]
        constructor
        · exact List.mem_map_of_mem member
        · intro second among
          rcases List.mem_map.mp among with ⟨write, within, rfl⟩
          exact latest write within
      rw [maximum, Option.map_some, Option.map_some, Binary64.canonical_of_isCount count]

/-- If the latest writes agree on a value, that value is stored. -/
theorem Leaves.value
    {value : String}
    (agree :
      ∀ write ∈ written, (∀ other ∈ written, other.second ≤ write.second) →
        write.value = value) :
    ∀ entry ∈ stored, entry.value = value := by
  intro entry held
  obtain rfl : stored = some entry := held
  rcases left with ⟨_, member, latest⟩
  exact agree entry.write member latest

end

end ConvergentStore.Register
