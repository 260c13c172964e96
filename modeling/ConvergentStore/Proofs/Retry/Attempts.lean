import ConvergentStore.Proofs.Number.WholePart
import ConvergentStore.Retry.Run

/-!
# Attempts under a policy

A policy whose number of attempts is `nan` or at most `2 ^ 53` bounds the
attempts: by the whole part of that number, and by one if it is less than one
or no number. `lt_allowance_of_allows` says so of a single retry. `burst_rule`
is the rule by which something is shown of all the attempts that follow one
another at one time of the clock.
-/

namespace ConvergentStore.Policy

/-! ## Allowances -/

/-- A policy is bounded when its number of attempts is `nan` or at most `2 ^ 53`. -/
def Bounded (policy : Policy) : Prop :=
  policy.maxAttempts.isNaN = true ∨ policy.maxAttempts.le (.ofNat (2 ^ 53)) = true

/--
How many attempts a bounded policy allows: the whole part of its number of
attempts, and one if that is not positive or no number.
-/
def allowance (policy : Policy) : Nat :=
  max 1 policy.maxAttempts.floor.toNat

theorem one_le_allowance (policy : Policy) : 1 ≤ policy.allowance :=
  le_max_left _ _

section

variable
  {policy : Policy}
  (number : policy.maxAttempts.isNaN = false)
  (limited : policy.maxAttempts.le (.ofNat (2 ^ 53)) = true)

include number limited

/-- The retries of a bounded policy are one less than the attempts that it allows. -/
theorem retries_eq :
    policy.allowance ≤ 2 ^ 53 ∧ policy.retries = .ofNat (policy.allowance - 1) := by
  rcases policy with ⟨maxAttempts, delay⟩
  simp only [allowance, retries] at *
  by_cases below : maxAttempts.place ≤ 0
  · rcases Binary64.floor_of_place_le_zero number below with ⟨whole, wholeBelow⟩
    rcases Binary64.sub_one_of_place_le_zero whole wholeBelow with ⟨less, lessBelow⟩
    rw [Binary64.toNat_of_place_le_zero wholeBelow,
      Binary64.max_zero_of_place_le_zero less lessBelow]
    exact ⟨by decide, rfl⟩
  · obtain ⟨attempts, bounded, whole⟩ :
        ∃ attempts, attempts ≤ 2 ^ 53 ∧ maxAttempts.floor = Binary64.ofNat attempts := by
      rw [Binary64.le_iff, Binary64.ofNat_eq_finite (le_refl (2 ^ 53))] at limited
      cases maxAttempts with
      | nan => cases number
      | infinity negative =>
          have room : Binary64.scale * 2 ^ 53 < Binary64.overflow :=
            (Binary64.fits_scale_mul (le_refl (2 ^ 53))).1
          cases negative <;> simp only [Binary64.place] at below limited <;> omega
      | finite negative units fits =>
          cases negative with
          | true => simp only [Binary64.place] at below; omega
          | false => exact ⟨_, Binary64.floor_finite_false (Int.ofNat_le.mp limited.2.2)⟩
    rw [whole, Binary64.toNat_ofNat bounded]
    refine ⟨max_le (by decide) bounded, ?_⟩
    cases attempts with
    | zero =>
        rcases Binary64.sub_one_of_place_le_zero
          (x := .ofNat 0) Binary64.isNaN_zero Binary64.place_zero.le with ⟨less, lessBelow⟩
        exact Binary64.max_zero_of_place_le_zero less lessBelow
    | succ retries =>
        rw [Binary64.ofNat_succ_sub_one bounded, Binary64.max_zero_ofNat (by omega),
          max_eq_right (Nat.le_add_left 1 retries), Nat.add_sub_cancel]

/-- One more than the retries of a bounded policy is the number of attempts that it allows. -/
theorem retries_add_one : policy.retries + 1 = .ofNat policy.allowance := by
  rcases retries_eq number limited with ⟨most, retries⟩
  have positive := policy.one_le_allowance
  rw [retries, Binary64.ofNat_add_one (by omega), Nat.sub_add_cancel positive]

/-- A policy that is bounded by a number allows a retry if it leaves room for one more attempt. -/
theorem allows_iff {retried : Nat} :
    policy.allows retried = true ↔ retried + 1 < policy.allowance := by
  rcases retries_eq number limited with ⟨most, retries⟩
  rcases Binary64.place_ofNat (n := policy.allowance - 1) (by omega) with ⟨_, place⟩
  rw [allows, Bool.or_eq_true, Binary64.lt_iff, Binary64.lt_iff, retries, place]
  constructor
  · rintro (⟨_, _, less⟩ | ⟨_, _, less⟩)
    · have retry := Binary64.lt_of_place_ofNat_lt (by omega) less
      omega
    · have beyond := Binary64.lt_of_place_ofNat_lt (by omega) less
      omega
  · intro room
    have positive : (0 : Int) < Binary64.scale := by exact_mod_cast Binary64.scale_pos
    rcases Binary64.place_ofNat (n := retried) (by omega) with ⟨count, stands⟩
    refine .inl ⟨count, (Binary64.place_ofNat (by omega)).1, ?_⟩
    rw [stands, Int.mul_lt_mul_left positive]
    omega

end

/-- A retry that a bounded policy allows leaves room for one more attempt. -/
theorem lt_allowance_of_allows
    {policy : Policy}
    {retried : Nat}
    (bounded : policy.Bounded)
    (allowed : policy.allows retried = true) :
    retried + 1 < policy.allowance := by
  rcases bounded with none | limited
  · have undefined : policy.retries.isNaN = true := by
      cases attempts : policy.maxAttempts with
      | nan => simp [retries, attempts, Binary64.floor, Binary64.sub_eq, Binary64.one_eq_finite,
          Binary64.add, Binary64.max, Binary64.isNaN]
      | infinity negative => rw [attempts] at none; cases none
      | finite negative units fits => rw [attempts] at none; cases none
    rw [allows, Bool.or_eq_true, Binary64.lt_iff, Binary64.lt_iff, undefined] at allowed
    rcases allowed with ⟨_, impossible, _⟩ | ⟨_, impossible, _⟩ <;> cases impossible
  · exact (allows_iff (Binary64.le_iff.mp limited).1 limited).mp allowed

theorem allowance_of_isNaN
    {policy : Policy}
    (none : policy.maxAttempts.isNaN = true) :
    policy.allowance = 1 := by
  cases attempts : policy.maxAttempts with
  | nan =>
      rw [allowance, attempts]
      rfl
  | infinity negative => rw [attempts] at none; cases none
  | finite negative units fits => rw [attempts] at none; cases none

section

variable {policy : Policy} (bounded : policy.Bounded)

include bounded

theorem Bounded.allowance_le : policy.allowance ≤ 2 ^ 53 := by
  rcases bounded with none | limited
  · rw [allowance_of_isNaN none]
    decide
  · exact (retries_eq (Binary64.le_iff.mp limited).1 limited).1

/-- A bounded policy allows a retry exactly if it leaves room for one more attempt. -/
theorem Bounded.allows_iff {retried : Nat} :
    policy.allows retried = true ↔ retried + 1 < policy.allowance := by
  refine ⟨lt_allowance_of_allows bounded, fun room => ?_⟩
  rcases bounded with none | limited
  · rw [allowance_of_isNaN none] at room
    omega
  · exact (Policy.allows_iff (Binary64.le_iff.mp limited).1 limited).mpr room

end

example : (⟨Binary64.ofNat 5 / 2, 0⟩ : Policy).allowance = 2 := by decide +kernel

example : (⟨.nan, 0⟩ : Policy).allowance = 1 := by decide +kernel

/-! ## Pauses -/

theorem allows_of_pause_ne_giveUp
    {policy : Policy}
    {retried : Nat}
    {now : Binary64}
    (goesOn : policy.pause retried now ≠ .giveUp) :
    policy.allows retried = true := by
  by_contra spent
  rw [Bool.not_eq_true] at spent
  exact goesOn (by simp [pause, spent])

/--
Whether an attempt at a time of the clock is cut short: if it fails, the next one
would start at an infinite time, and there is none, whatever the policy allows.
-/
def CutsShort (policy : Policy) (time : Binary64) : Prop :=
  time.isFinite = true ∧ time + policy.delay = .unbounded

theorem not_cutsShort_of_pause
    {policy : Policy}
    {retried : Nat}
    {now : Binary64}
    {next : Pause}
    (follows : policy.pause retried now = next)
    (goesOn : next ≠ .giveUp) :
    ¬ policy.CutsShort now := by
  rintro ⟨finite, start⟩
  refine goesOn (follows.symm.trans ?_)
  simp [pause, finite, start]

/-- A policy gives up when the attempts that it allows are made, or when it is cut short. -/
theorem spent_or_cutsShort
    {policy : Policy}
    (number : policy.maxAttempts.isNaN = false)
    (limited : policy.maxAttempts.le (.ofNat (2 ^ 53)) = true)
    {retried : Nat}
    {now : Binary64}
    (ended : policy.pause retried now = .giveUp ∨ patience ≤ retried) :
    policy.allowance ≤ retried + 1 ∨ policy.CutsShort now := by
  have most := (retries_eq number limited).1
  by_contra left
  rw [not_or, not_le] at left
  have allowed := (allows_iff number limited).mpr left.1
  have patient : retried < patience := by
    unfold patience
    omega
  have goesOn : policy.pause retried now ≠ .giveUp := by
    intro givesUp
    simp only [pause, allowed, patient, Bool.not_true, Bool.false_or, ↓reduceIte] at givesUp
    split at givesUp
    · next short =>
        rw [Bool.and_eq_true, decide_eq_true_eq] at short
        exact left.2 short
    · split at givesUp
      · cases givesUp
      · split at givesUp <;> cases givesUp
  rcases ended with givesUp | impatient
  · exact goesOn givesUp
  · exact not_lt.mpr impatient patient

/-! ## Bursts -/

/--
What holds before the first attempt of a burst and from one attempt to the next
holds before each of them. So what follows from it when an attempt succeeds, or
fails for good, or fails and sleeps, holds when the burst is over. An attempt
fails for good when the policy gives up, or when no fuel is left.
-/
theorem burst_rule
    {State Failure Success : Type}
    {policy : Policy}
    {now : Binary64}
    {attempt : State → Except Failure Success × State}
    (before : Nat → State → Prop)
    (after : Stage Failure Success → State → Prop)
    (limit : Nat)
    (ends : ∀ retried state result next, before retried state →
      attempt state = (result, next) →
        (∀ failure, result = .error failure →
          policy.pause retried now = .giveUp ∨ limit ≤ retried) →
            after (.ended result) next)
    (sleeps : ∀ retried state failure next due, before retried state →
      attempt state = (.error failure, next) → policy.pause retried now = .sleep due →
        after (.asleep (retried + 1) due) next)
    (repeats : ∀ retried state failure next, before retried state →
      attempt state = (.error failure, next) → policy.pause retried now = .again →
        before (retried + 1) next)
    (fuel : Nat)
    {retried : Nat}
    {state : State}
    (fuelled : limit ≤ retried + fuel)
    (holds : before retried state) :
    after (policy.burst now attempt fuel retried state).1
      (policy.burst now attempt fuel retried state).2 := by
  induction fuel generalizing retried state with
  | zero =>
      rcases made : attempt state with ⟨result, next⟩
      simp only [burst, made]
      cases result with
      | ok value =>
          refine ends retried state _ next holds made ?_
          rintro _ ⟨⟩
      | error failure =>
          simp only [stage]
          cases pause : policy.pause retried now with
          | giveUp => exact ends retried state _ next holds made fun _ _ => .inl pause
          | again => exact ends retried state _ next holds made fun _ _ => .inr fuelled
          | sleep due => exact sleeps retried state failure next due holds made pause
  | succ fuel ih =>
      rcases made : attempt state with ⟨result, next⟩
      simp only [burst, made]
      cases result with
      | ok value =>
          refine ends retried state _ next holds made ?_
          rintro _ ⟨⟩
      | error failure =>
          simp only [stage]
          cases pause : policy.pause retried now with
          | giveUp => exact ends retried state _ next holds made fun _ _ => .inl pause
          | again =>
              exact ih (by omega) (repeats retried state failure next holds made pause)
          | sleep due => exact sleeps retried state failure next due holds made pause

end ConvergentStore.Policy
