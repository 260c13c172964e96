import ConvergentStore.Proofs.Replica.Acceptance
import ConvergentStore.Proofs.Replica.Feed
import ConvergentStore.Proofs.Replica.Growth
import ConvergentStore.Proofs.Replicated.Rejection

/-!
# Effects of operations

What a reachable replica makes of one operation. It rejects the operation for
its number or for want of room (`apply_eq_error_iff_rejects`). Otherwise the
operation leaves something under its key (`leaves_of_apply`) and nothing else
changes.
-/

namespace ConvergentStore

/-- The write that prevails over what is stored: the later one, and what is stored in a tie. -/
def Register.Entry.over (incoming : Entry) : Option Entry → Entry
  | none => incoming
  | some stored => if stored.timestamp.toNat < incoming.timestamp.toNat then incoming else stored

theorem Register.entry?_write_self
    {register : Register}
    (stamped : register.Stamped)
    (key : String)
    {incoming : Entry}
    (count : incoming.timestamp.isCount = true) :
    Register.entry? (register.write key incoming) key =
      some (incoming.over (register.entry? key)) := by
  rw [write]
  cases held : register.entry? key with
  | none => simp [Entry.supersedes, Entry.over, Register.entry?, Table.get?_put]
  | some stored =>
      have later := Binary64.lt_iff_toNat_lt (stamped key stored held) count
      simp only [Entry.supersedes, Entry.over, later]
      split
      · simp [Register.entry?, Table.get?_put]
      · exact held

/-- Elements that are listed, with one more at the end unless it is among them. -/
def GrowSet.listing (element : String) (listed : List String) : List String :=
  if element ∈ listed then listed else listed ++ [element]

theorem GrowSet.read?_add_self
    (set : GrowSet)
    (key element : String) :
    (set.add key element).read? key =
      some (listing element ((set.read? key).getD [])) := by
  simp only [add, listing, List.contains_eq_mem, decide_eq_true_eq]
  split
  · next listed =>
      cases held : set.read? key with
      | none => simp [held] at listed
      | some elements => rfl
  · simp [read?, Table.get?_put]

namespace Replica

open Binary64 (largestSafe)

/-! ## Rejection -/

/-- Why a replica rejects an operation. -/
inductive Rejects (replica : Replica) : Operation → Refusal → Prop
  /-- The second of a write is negative or unsafe. -/
  | timestamp {key value : String} {timestamp : Binary64}
      (unfit : ¬ ∃ n : Nat, n ≤ largestSafe ∧ timestamp.equals (.ofNat n) = true) :
      Rejects replica (.registerSet key value timestamp) (.timestamp timestamp)
  /-- The amount of an increment is not a natural number of the safe range. -/
  | amount {key : String} {amount : Binary64}
      (unfit : ¬ ∃ n : Nat, n ≤ largestSafe ∧ amount.equals (.ofNat n) = true) :
      Rejects replica (.counterIncrement key amount) (.amount amount)
  /-- The amount would take the total out of the safe range. -/
  | exceeded {key : String} {amount : Binary64} {n : Nat}
      (fit : n ≤ largestSafe)
      (adds : amount.equals (.ofNat n) = true)
      (full : largestSafe < replica.counters.total key + n) :
      Rejects replica (.counterIncrement key amount) (.exceeded key)

/-- A replica refuses what the family of the operation refuses. -/
theorem map_eq_error_iff
    {State : Type}
    {result : Except Refusal State}
    {within : State → Replica}
    {refusal : Refusal} :
    result.map within = .error refusal ↔ result = .error refusal := by
  cases result with
  | ok next => exact ⟨nofun, nofun⟩
  | error reason => simp [Except.map]

theorem rejects_registerSet_iff
    (replica : Replica)
    (key value : String)
    (timestamp : Binary64)
    {refusal : Refusal} :
    replica.apply (.registerSet key value timestamp) = .error refusal ↔
      replica.Rejects (.registerSet key value timestamp) refusal := by
  refine map_eq_error_iff.trans ((Register.apply_eq_error_iff _ replica.registers refusal).trans ?_)
  constructor
  · intro rejects
    cases rejects with
    | foreign other => exact absurd rfl other
    | timestamp unfit => exact .timestamp unfit
  · rintro (⟨unfit⟩)
    exact .timestamp unfit

theorem rejects_counterIncrement_iff
    {replica : Replica}
    (reachable : replica.Reachable)
    (key : String)
    (amount : Binary64)
    {refusal : Refusal} :
    replica.apply (.counterIncrement key amount) = .error refusal ↔
      replica.Rejects (.counterIncrement key amount) refusal := by
  refine map_eq_error_iff.trans ((Counter.apply_eq_error_iff reachable.whole).trans ?_)
  constructor
  · intro rejects
    cases rejects with
    | foreign other => exact absurd rfl other
    | amount unfit => exact .amount unfit
    | exceeded fit adds full => exact .exceeded fit adds full
  · intro rejects
    cases rejects with
    | amount unfit => exact .amount unfit
    | exceeded fit adds full => exact .exceeded fit adds full

/-- A reachable replica refuses an operation if and only if it has a reason to reject it. -/
theorem apply_eq_error_iff_rejects
    {replica : Replica}
    (reachable : replica.Reachable)
    {operation : Operation}
    {refusal : Refusal} :
    replica.apply operation = .error refusal ↔ replica.Rejects operation refusal := by
  cases operation with
  | registerSet key value timestamp => exact rejects_registerSet_iff replica key value timestamp
  | counterIncrement key amount => exact rejects_counterIncrement_iff reachable key amount
  | setAdd key element =>
      rw [apply_setAdd]
      constructor
      · rintro ⟨⟩
      · rintro ⟨⟩

/-! ## Acceptance -/

/-- What an operation that a replica takes leaves under its key. -/
def Leaves (before after : Replica) : Operation → Prop
  | .registerSet key value timestamp =>
      after.registers.entry? key =
        some (Register.Entry.over ⟨value, timestamp⟩ (before.registers.entry? key))
  | .counterIncrement key amount =>
      after.counters.read? key = some (.ofNat (before.counters.total key + amount.toNat))
  | .setAdd key element =>
      after.sets.read? key =
        some (GrowSet.listing element ((before.sets.read? key).getD []))

theorem leaves_of_apply
    {replica next : Replica}
    (reachable : replica.Reachable)
    {operation : Operation}
    (accepted : replica.apply operation = .ok next) :
    replica.Leaves next operation := by
  cases operation with
  | registerSet key value timestamp =>
      have count := Binary64.isCount_iff.mpr (mayTravel_of_apply accepted)
      rw [apply_registerSet replica key value count] at accepted
      cases accepted
      exact Register.entry?_write_self reachable.sound.timestamps key count
  | counterIncrement key amount =>
      have count := Binary64.isCount_iff.mpr (mayTravel_of_apply accepted)
      rw [apply_counterIncrement reachable.whole count key] at accepted
      split at accepted
      · cases accepted
        simp [Leaves, Counter.read?, Table.get?_put]
      · cases accepted
  | setAdd key element =>
      rw [apply_setAdd] at accepted
      cases accepted
      exact GrowSet.read?_add_self replica.sets key element

end Replica

end ConvergentStore
