import ConvergentStore.Proofs.Number.Counts
import ConvergentStore.Proofs.Replicated.Basic
import ConvergentStore.Replicated.Counter

/-!
# Totals of counters

The totals that operations lead to are natural numbers of the safe range, and
an amount is refused exactly when it would take a total out of that range. So
operations fill a total with the amounts under its key, in turn
(`read?_replay_filled`). As long as all of them stay within the range together,
none is refused and the total is their sum, in whichever order they come.
-/

namespace ConvergentStore.Counter

open Binary64 (largestSafe)

/-! ## Amounts -/

/-- The amount that an operation adds under a key, if it adds one. -/
def amount? (key : String) : Operation → Option Nat
  | .counterIncrement target amount =>
      if target = key ∧ amount.isCount = true then some amount.toNat else none
  | _ => none

/-- The amounts that operations add under a key, in turn. -/
def amounts (key : String) (operations : List Operation) : List Nat :=
  operations.filterMap (amount? key)

theorem amounts_concat
    (key : String)
    (earlier : List Operation)
    (last : Operation) :
    amounts key (earlier ++ [last]) = amounts key earlier ++ (amount? key last).toList := by
  rw [amounts, List.filterMap_append]
  cases added : amount? key last <;> simp [amounts, added]

/-- What amounts add up to, if there are any. -/
def totalOf (amounts : List Nat) : Option Binary64 :=
  if amounts = [] then none else some (.ofNat amounts.sum)

theorem totalOf_perm {left right : List Nat} (same : left.Perm right) :
    totalOf left = totalOf right := by
  simp only [totalOf, same.sum_nat, ← List.length_eq_zero_iff, same.length_eq]

/-! ## Whole totals -/

/-- The natural number under a key; a key not yet counted stands at zero. -/
def total (counter : Counter) (key : String) : Nat :=
  ((counter.read? key).getD 0).toNat

/-- Every total is a natural number of the safe range. -/
def Whole (counter : Counter) : Prop :=
  ∀ key held, counter.read? key = some held →
    ∃ n, n ≤ largestSafe ∧ held = Binary64.ofNat n

theorem whole_empty : Whole empty :=
  nofun

theorem Whole.getD_eq
    {counter : Counter}
    (whole : counter.Whole)
    (key : String) :
    counter.total key ≤ largestSafe ∧
      (counter.read? key).getD 0 = Binary64.ofNat (counter.total key) := by
  cases held : counter.read? key with
  | none =>
      have zero : Binary64.toNat 0 = 0 := Binary64.toNat_ofNat (by decide)
      simp only [total, held, Option.getD_none, zero]
      exact ⟨Nat.zero_le _, rfl⟩
  | some stored =>
      rcases whole key stored held with ⟨n, small, rfl⟩
      have bounded := small.trans Binary64.largestSafe_le
      simp only [total, held, Option.getD_some, Binary64.toNat_ofNat bounded]
      exact ⟨small, trivial⟩

/-- An amount is added when it leaves the total in the safe range, and refused otherwise. -/
theorem apply_counterIncrement
    {counter : Counter}
    {amount : Binary64}
    (whole : counter.Whole)
    (count : amount.isCount = true)
    (key : String) :
    apply (.counterIncrement key amount) counter =
      if counter.total key + amount.toNat ≤ largestSafe then
        .ok ⟨counter.totals.put key (.ofNat (counter.total key + amount.toNat))⟩
      else .error (.exceeded key) := by
  rcases whole.getD_eq key with ⟨small, stands⟩
  have raised : counter.raised key amount =
      Binary64.ofNat (counter.total key + amount.toNat) := by
    rw [Counter.raised, stands]
    exact Binary64.ofNat_add_of_isCount small count
  simp only [apply, count, ↓reduceIte, raised, Binary64.isSafeInteger_ofNat_iff]

/-! ## Replaying -/

/-- Operations of other families leave counters as they are. -/
theorem commit_of_family_ne
    {operation : Operation}
    (foreign : operation.family ≠ .counter)
    (counter : Counter) :
    (Replicated.commit operation counter).2 = counter := by
  cases operation with
  | registerSet => rfl
  | counterIncrement => exact absurd rfl foreign
  | setAdd => rfl

/-- Amounts that are no counts leave counters as they are. -/
theorem commit_of_not_isCount
    {amount : Binary64}
    (noCount : ¬ amount.isCount = true)
    (key : String)
    (counter : Counter) :
    (Replicated.commit (.counterIncrement key amount) counter).2 = counter := by
  have refused : apply (.counterIncrement key amount) counter = .error (.amount amount) := by
    simp [apply, noCount]
  exact Replicated.commit_of_apply_eq_error refused

theorem commit_counterIncrement
    {counter : Counter}
    {amount : Binary64}
    (whole : counter.Whole)
    (count : amount.isCount = true)
    (key : String) :
    (Replicated.commit (.counterIncrement key amount) counter).2 =
      if counter.total key + amount.toNat ≤ largestSafe then
        ⟨counter.totals.put key (.ofNat (counter.total key + amount.toNat))⟩
      else counter := by
  have applied := apply_counterIncrement whole count key
  split
  · next room => exact Replicated.commit_of_apply_eq_ok (applied.trans (if_pos room))
  · next noRoom => exact Replicated.commit_of_apply_eq_error (applied.trans (if_neg noRoom))

theorem Whole.commit
    {counter : Counter}
    (whole : counter.Whole)
    (operation : Operation) :
    Whole (Replicated.commit operation counter).2 := by
  cases operation with
  | registerSet => exact whole
  | setAdd => exact whole
  | counterIncrement key amount =>
      by_cases count : amount.isCount = true
      · rw [commit_counterIncrement whole count]
        split
        · next room =>
            intro sought held found
            simp only [read?, Table.get?_put] at found
            split at found
            · cases found
              exact ⟨_, room, rfl⟩
            · exact whole sought held found
        · exact whole
      · rw [commit_of_not_isCount count]
        exact whole

theorem whole_replay (operations : List Operation) :
    Whole (Replicated.replay operations empty) := by
  induction operations using List.reverseRecOn with
  | nil => exact whole_empty
  | append_singleton earlier last ih =>
      rw [Replicated.replay_concat]
      exact ih.commit last

/-! ## Filling -/

/-- What a total comes to with amounts in turn, without those that it has no room for. -/
def fill (amounts : List Nat) : Nat :=
  amounts.foldl
    (fun total amount => if total + amount ≤ largestSafe then total + amount else total) 0

theorem fill_concat (earlier : List Nat) (last : Nat) :
    fill (earlier ++ [last]) =
      if fill earlier + last ≤ largestSafe then fill earlier + last else fill earlier := by
  rw [fill, List.foldl_append]
  rfl

theorem fill_le (amounts : List Nat) : fill amounts ≤ largestSafe := by
  induction amounts using List.reverseRecOn with
  | nil => exact Nat.zero_le _
  | append_singleton earlier last ih =>
      rw [fill_concat]
      split
      · assumption
      · exact ih

theorem fill_eq_sum {amounts : List Nat} (room : amounts.sum ≤ largestSafe) :
    fill amounts = amounts.sum := by
  induction amounts using List.reverseRecOn with
  | nil => rfl
  | append_singleton earlier last ih =>
      rw [List.sum_append, List.sum_singleton] at room ⊢
      rw [fill_concat, ih (le_trans (Nat.le_add_right _ _) room), if_pos room]

/-- What a counter holds under a key that amounts have filled, if there are any. -/
def filled (amounts : List Nat) : Option Binary64 :=
  if amounts = [] then none else some (.ofNat (fill amounts))

theorem filled_eq_totalOf {amounts : List Nat} (room : amounts.sum ≤ largestSafe) :
    filled amounts = totalOf amounts := by
  rw [filled, totalOf, fill_eq_sum room]

theorem total_eq_fill
    {counter : Counter}
    {key : String}
    {amounts : List Nat}
    (held : counter.read? key = filled amounts) :
    counter.total key = fill amounts := by
  rw [total, held, filled]
  split
  · next none =>
      subst none
      exact Binary64.toNat_ofNat (by decide)
  · exact Binary64.toNat_ofNat ((fill_le amounts).trans Binary64.largestSafe_le)

/-- Operations fill each total with the amounts under its key. -/
theorem read?_replay_filled (operations : List Operation) (key : String) :
    (Replicated.replay operations empty).read? key = filled (amounts key operations) := by
  induction operations using List.reverseRecOn with
  | nil => rfl
  | append_singleton earlier last ih =>
      rw [Replicated.replay_concat, amounts_concat]
      cases last with
      | registerSet =>
          rw [commit_of_family_ne (by simp [Operation.family])]
          simpa [amount?] using ih
      | setAdd =>
          rw [commit_of_family_ne (by simp [Operation.family])]
          simpa [amount?] using ih
      | counterIncrement target amount =>
          by_cases count : amount.isCount = true
          · rw [commit_counterIncrement (whole_replay earlier) count]
            by_cases here : target = key
            · subst here
              simp only [total_eq_fill ih, amount?, count, and_self, ↓reduceIte,
                Option.toList_some, filled, fill_concat, List.append_eq_nil_iff,
                List.cons_ne_self, and_false]
              split
              · simp [read?, Table.get?_put]
              · next full =>
                  -- The first amount under a key fits, so the key was counted before.
                  have counted : amounts target earlier ≠ [] := by
                    intro none
                    rw [none] at full
                    exact full (by simpa [fill] using Binary64.toNat_le_of_isCount count)
                  rw [ih, filled, if_neg counted]
            · split
              · simpa [amount?, here, read?, Table.get?_put] using ih
              · simpa [amount?, here] using ih
          · rw [commit_of_not_isCount count]
            simpa [amount?, count] using ih

/-- While the amounts under a key stay within the safe range, its total is their sum. -/
theorem read?_replay
    {operations : List Operation}
    {key : String}
    (room : (amounts key operations).sum ≤ largestSafe) :
    (Replicated.replay operations empty).read? key = totalOf (amounts key operations) :=
  (read?_replay_filled operations key).trans (filled_eq_totalOf room)

end ConvergentStore.Counter
