import ConvergentStore.Proofs.Replicated.Counter
import ConvergentStore.Replicated.GrowSet
import ConvergentStore.Replicated.Register

/-!
# Reasons for refusals

Each type refuses the operations of the others. Registers also refuse a write
whose timestamp is unfit, and counters an increment whose amount is unfit or
finds no room under its key. There are no other reasons, and so registers and
sets refuse an operation in every state or in none.
-/

namespace ConvergentStore

open Binary64 (largestSafe)

/-! ## Registers -/

/-- Why registers do not take an operation: it is no write, or its timestamp is unfit. -/
inductive Register.Rejects : Operation → Refusal → Prop
  | foreign {operation : Operation} (other : operation.family ≠ .register) :
      Rejects operation (.foreign .register operation.family)
  | timestamp {key value : String} {timestamp : Binary64}
      (unfit : ¬ ∃ n : Nat, n ≤ largestSafe ∧ timestamp.equals (.ofNat n) = true) :
      Rejects (.registerSet key value timestamp) (.timestamp timestamp)

theorem Register.apply_eq_error_iff
    (operation : Operation)
    (register : Register)
    (refusal : Refusal) :
    Replicated.apply operation register = .error refusal ↔ Rejects operation refusal := by
  show apply operation register = .error refusal ↔ _
  cases operation with
  | counterIncrement | setAdd =>
      constructor
      · rintro ⟨⟩
        exact .foreign nofun
      · rintro ⟨_⟩
        rfl
  | registerSet key value timestamp =>
      rw [apply]
      by_cases count : timestamp.isCount = true
      · rw [if_pos count]
        constructor
        · rintro ⟨⟩
        · intro rejects
          cases rejects with
          | foreign other => exact absurd rfl other
          | timestamp unfit => exact absurd (Binary64.isCount_iff.mp count) unfit
      · rw [if_neg count]
        constructor
        · rintro ⟨⟩
          exact .timestamp (mt Binary64.isCount_iff.mpr count)
        · intro rejects
          cases rejects with
          | foreign other => exact absurd rfl other
          | timestamp => rfl

/-! ## Grow-only sets -/

/-- Why grow-only sets do not take an operation: it is no addition. -/
inductive GrowSet.Rejects : Operation → Refusal → Prop
  | foreign {operation : Operation} (other : operation.family ≠ .set) :
      Rejects operation (.foreign .set operation.family)

theorem GrowSet.apply_eq_error_iff
    (operation : Operation)
    (set : GrowSet)
    (refusal : Refusal) :
    Replicated.apply operation set = .error refusal ↔ Rejects operation refusal := by
  show apply operation set = .error refusal ↔ _
  cases operation with
  | registerSet | counterIncrement =>
      constructor
      · rintro ⟨⟩
        exact .foreign nofun
      · rintro ⟨_⟩
        rfl
  | setAdd =>
      constructor
      · rintro ⟨⟩
      · rintro ⟨other⟩
        exact absurd rfl other

/-! ## Counters -/

namespace Counter

/--
Why counters whose totals stand so do not take an operation: it is no increment,
its amount is unfit, or the total under its key has no room for it.
-/
inductive Rejects (total : String → Nat) : Operation → Refusal → Prop
  | foreign {operation : Operation} (other : operation.family ≠ .counter) :
      Rejects total operation (.foreign .counter operation.family)
  | amount {key : String} {amount : Binary64}
      (unfit : ¬ ∃ n : Nat, n ≤ largestSafe ∧ amount.equals (.ofNat n) = true) :
      Rejects total (.counterIncrement key amount) (.amount amount)
  | exceeded {key : String} {amount : Binary64} {n : Nat}
      (fit : n ≤ largestSafe)
      (adds : amount.equals (.ofNat n) = true)
      (full : largestSafe < total key + n) :
      Rejects total (.counterIncrement key amount) (.exceeded key)

section

variable {counter : Counter} (whole : counter.Whole)

include whole

theorem apply_eq_error_iff
    {operation : Operation}
    {refusal : Refusal} :
    Replicated.apply operation counter = .error refusal ↔
      Rejects counter.total operation refusal := by
  show apply operation counter = .error refusal ↔ _
  cases operation with
  | registerSet | setAdd =>
      constructor
      · rintro ⟨⟩
        exact .foreign nofun
      · rintro ⟨_⟩
        rfl
  | counterIncrement key amount =>
      by_cases count : amount.isCount = true
      · have fit := Binary64.toNat_le_of_isCount count
        have adds := Binary64.equals_ofNat_toNat count
        rw [apply_counterIncrement whole count key]
        constructor
        · intro refused
          split at refused
          · cases refused
          · next full =>
              cases refused
              exact .exceeded fit adds (not_le.mp full)
        · intro rejects
          cases rejects with
          | foreign other => exact absurd rfl other
          | amount unfit => exact absurd (Binary64.isCount_iff.mp count) unfit
          | exceeded small same full =>
              rw [← Binary64.toNat_eq (small.trans Binary64.largestSafe_le) same] at full
              rw [if_neg (not_le.mpr full)]
      · have unfit := mt Binary64.isCount_iff.mpr count
        rw [apply, if_neg count]
        constructor
        · rintro ⟨⟩
          exact .amount unfit
        · intro rejects
          cases rejects with
          | foreign other => exact absurd rfl other
          | amount => rfl
          | exceeded small same full => exact absurd ⟨_, small, same⟩ unfit

end

end Counter

end ConvergentStore
