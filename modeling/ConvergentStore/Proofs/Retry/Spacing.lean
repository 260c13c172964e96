import ConvergentStore.Proofs.Number.Integers
import ConvergentStore.Proofs.Retry.Attempts

/-!
# The spacing of attempts

A policy finds the time of the next attempt on the clock in three rounded steps:
it adds its delay to the time of the attempt that failed, takes that time away
again, and adds the difference. While times are safe integers and the delay is a
count, the steps are exact as far as the sum is at most `2 ^ 53`, and a sum beyond
that is due at no safe time (`exists_due`). So attempts are one delay apart, and
two of them fall on one time only if there is no delay.
-/

namespace ConvergentStore

/-- A delay of whole milliseconds is not changed. -/
theorem Delay.toInt?_ofMillis
    {millis : Binary64}
    {n : Int}
    (whole : millis.toInt? = some n)
    (unsigned : 0 ≤ n) :
    (Delay.ofMillis millis).toInt? = some n := by
  have integer : millis.isInteger = true := by rw [Binary64.isInteger, whole]; rfl
  have positive := Binary64.lt_iff_of_toInt? Binary64.toInt?_zero whole
  unfold Delay.ofMillis
  by_cases zero : n = 0
  · have none : Binary64.lt 0 millis = false := by
      rw [← Bool.not_eq_true, positive, zero]
      omega
    rw [none, zero]
    exact Binary64.toInt?_zero
  · rw [positive.mpr (by omega), integer]
    exact whole

namespace Policy

section

variable
  {policy : Policy}
  {now : Binary64}
  {n d : Int}
  (whole : now.toInt? = some n)
  (delay : policy.delay.toInt? = some d)
  (unsigned : 0 ≤ d)
  (exact : Binary64.Exact (n + d))

include whole delay unsigned exact

/-- If the time one delay later is a number of the format, the three steps lead to it. -/
theorem due_of_exact :
    (now + policy.delay - now).toInt? = some d ∧
      (now + Delay.ofMillis (now + policy.delay - now)).toInt? = some (n + d) := by
  have start := Binary64.toInt?_add_of_exact whole delay exact
  have back := Binary64.toInt?_neg whole
  have same : n + d + -n = d := by omega
  have wait : (now + policy.delay - now).toInt? = some (n + d + -n) :=
    Binary64.toInt?_add_of_exact start back (same.symm ▸ ⟨_, delay⟩)
  rw [same] at wait
  exact ⟨wait, Binary64.toInt?_add_of_exact whole (Delay.toInt?_ofMillis wait unsigned) exact⟩

/-- Then one more attempt that is allowed is made at once or is due at that time. -/
theorem pause_of_exact
    {retried : Nat}
    (allowed : policy.allows retried = true) :
    d = 0 ∧ policy.pause retried now = .again ∨
      0 < d ∧ ∃ due, policy.pause retried now = .sleep due ∧ due.toInt? = some (n + d) := by
  rcases due_of_exact whole delay unsigned exact with ⟨waits, dues⟩
  have later := Binary64.lt_iff_of_toInt? whole dues
  have none := Binary64.le_iff_of_toInt? waits Binary64.toInt?_zero
  have start := Binary64.toInt?_add_of_exact whole delay exact
  have finite : now + policy.delay ≠ .unbounded := by
    intro infinite
    rw [infinite] at start
    cases start
  simp only [pause, allowed, finite, decide_false, Bool.and_false, Bool.not_true, Bool.or_self,
    Bool.false_eq_true, ↓reduceIte]
  by_cases zero : d = 0
  · left
    rw [if_neg (by rw [later]; omega), if_pos (none.mpr (by omega))]
    exact ⟨zero, rfl⟩
  · right
    rw [if_pos (later.mpr (by omega))]
    exact ⟨by omega, _, rfl, dues⟩

end

section

variable
  {policy : Policy}
  (count : policy.delay.isCount = true)
  {now : Binary64}
  {n : Int}
  (whole : now.toInt? = some n)
  (lower : -2 ^ 53 < n)
  (upper : n < 2 ^ 53)

include count whole lower upper

/--
The next attempt after one at a safe time is due one delay later, or else at no
safe time.
-/
theorem exists_due :
    ∃ wait due,
      (now + policy.delay - now).toInt? = some wait ∧
        (now + Delay.ofMillis (now + policy.delay - now)).toInt? = some due ∧
          (wait = policy.delay.toNat ∧ due = n + policy.delay.toNat ∨
            2 ^ 53 ≤ due) := by
  have delay := Binary64.toInt?_of_isCount count
  have small := Binary64.toNat_le_of_isCount count
  simp only [Binary64.largestSafe] at small
  by_cases far : n + policy.delay.toNat ≤ 2 ^ 53
  · rcases due_of_exact whole delay (by omega)
      (Binary64.exact_of_natAbs_le (by omega)) with ⟨wait, due⟩
    exact ⟨_, _, wait, due, .inl ⟨rfl, rfl⟩⟩
  · -- The time after one delay is rounded, and so may be what is left of it.
    have back := Binary64.toInt?_neg whole
    rcases Binary64.toInt?_add_large whole delay (by omega) (by omega) with
      ⟨start, starts, above, below⟩
    obtain ⟨wait, waits, least, most⟩ : ∃ wait,
        (now + policy.delay - now).toInt? = some wait ∧ 2 ^ 53 ≤ n + wait ∧ wait ≤ 2 ^ 60 := by
      by_cases exact : start + -n ≤ 2 ^ 53
      · exact ⟨_, Binary64.toInt?_add starts back (by omega), by omega, by omega⟩
      · rcases Binary64.toInt?_add_large starts back (by omega) (by omega) with
          ⟨wait, waits, least, most⟩
        exact ⟨wait, waits, by omega, by omega⟩
    rcases Binary64.toInt?_add_large whole (Delay.toInt?_ofMillis waits (by omega)) (by omega)
      (by omega) with ⟨due, dues, reached, _⟩
    exact ⟨wait, due, waits, dues, .inr reached⟩

/-- An attempt follows another one at once only if there is no delay. -/
theorem toNat_delay_of_pause_again
    {retried : Nat}
    (again : policy.pause retried now = .again) :
    policy.delay.toNat = 0 := by
  rcases policy.exists_due count whole lower upper with ⟨wait, due, waits, dues, exact⟩
  have later := Binary64.lt_iff_of_toInt? whole dues
  have none := Binary64.le_iff_of_toInt? waits Binary64.toInt?_zero
  simp only [pause] at again
  split at again
  · cases again
  · split at again
    · cases again
    · next sooner =>
        rw [later] at sooner
        split at again
        · next elapsed =>
            rw [none] at elapsed
            omega
        · split at again <;> cases again

/-- An attempt that follows a sleep is due one delay later, or else at no safe time. -/
theorem toInt?_of_pause_sleep
    {retried : Nat}
    {due : Binary64}
    (sleeps : policy.pause retried now = .sleep due) :
    ∃ m, due.toInt? = some m ∧ n < m ∧ (m = n + policy.delay.toNat ∨ 2 ^ 53 ≤ m) := by
  rcases policy.exists_due count whole lower upper with ⟨wait, due', waits, dues, exact⟩
  have later := Binary64.lt_iff_of_toInt? whole dues
  have none := Binary64.le_iff_of_toInt? waits Binary64.toInt?_zero
  simp only [pause] at sleeps
  split at sleeps
  · cases sleeps
  · split at sleeps
    · next sooner =>
        cases sleeps
        exact ⟨due', dues, later.mp sooner, exact.imp_left And.right⟩
    · next sooner =>
        rw [later] at sooner
        split at sleeps
        · cases sleeps
        · next elapsed =>
            rw [none] at elapsed
            omega

end

end Policy

end ConvergentStore
