import ConvergentStore.Retry.Policy

/-!
# Running under a policy

An effect is attempted until it succeeds or the policy gives up. Attempts that
follow one another at once form a burst at one time of the clock; between
bursts the run is asleep until a due time. An effect is a function of a state,
so that attempts can be counted and recorded. Every burst of a run takes it
nearer to an end (`remaining_lt_of_burst_asleep`).
-/

namespace ConvergentStore

/-- Where a run stands after a burst. -/
inductive Stage (Failure Success : Type) where
  | ended (result : Except Failure Success)
  /-- Asleep after so many retries, the next attempt being due at a time. -/
  | asleep (retried : Nat) (due : Binary64)

namespace Policy

variable {State Failure Success : Type}

/-- What follows a result at a time of the clock, after so many retries. -/
def stage (policy : Policy) (now : Binary64) (retried : Nat) :
    Except Failure Success → Option (Stage Failure Success)
  | .ok value => some (.ended (.ok value))
  | .error failure =>
      match policy.pause retried now with
      | .giveUp => some (.ended (.error failure))
      | .sleep due => some (.asleep (retried + 1) due)
      | .again => none

/--
Attempts at one time of the clock, after so many retries. At most `fuel` of
them follow the first one.
-/
def burst (policy : Policy) (now : Binary64)
    (attempt : State → Except Failure Success × State) :
    (fuel retried : Nat) → State → Stage Failure Success × State
  | 0, retried, state =>
      let (result, state) := attempt state
      ((policy.stage now retried result).getD (.ended result), state)
  | fuel + 1, retried, state =>
      let (result, state) := attempt state
      match policy.stage now retried result with
      | some stage => (stage, state)
      | none => burst policy now attempt fuel (retried + 1) state

theorem advances_of_stage_asleep {policy : Policy} {now due : Binary64}
    {retried asleep : Nat} {result : Except Failure Success}
    (sleeps : policy.stage now retried result = some (.asleep asleep due)) :
    asleep = retried + 1 ∧ Advances now due retried := by
  cases result with
  | ok value => cases sleeps
  | error failure =>
      simp only [stage] at sleeps
      cases pause : policy.pause retried now with
      | giveUp => rw [pause] at sleeps; cases sleeps
      | again => rw [pause] at sleeps; cases sleeps
      | sleep next =>
          rw [pause] at sleeps
          cases sleeps
          exact ⟨rfl, advances_of_pause_sleep pause⟩

/-- A burst that falls asleep has used up a retry, and its sleep leads on. -/
theorem advances_of_burst_asleep {policy : Policy} {now due : Binary64}
    {attempt : State → Except Failure Success × State}
    {fuel retried asleep : Nat} {state after : State}
    (sleeps : policy.burst now attempt fuel retried state = (.asleep asleep due, after)) :
    ∃ last, retried ≤ last ∧ asleep = last + 1 ∧ Advances now due last := by
  induction fuel generalizing retried state with
  | zero =>
      have first := congrArg Prod.fst sleeps
      simp only [burst] at first
      cases next : policy.stage now retried (attempt state).1 with
      | none => rw [next] at first; cases first
      | some stage =>
          rw [next] at first
          exact ⟨retried, Nat.le_refl _,
            advances_of_stage_asleep (next.trans (congrArg some first))⟩
  | succ fuel ih =>
      simp only [burst] at sleeps
      cases next : policy.stage now retried (attempt state).1 with
      | none =>
          rw [next] at sleeps
          obtain ⟨last, later, counted, advances⟩ := ih sleeps
          exact ⟨last, by omega, counted, advances⟩
      | some stage =>
          rw [next] at sleeps
          exact ⟨retried, Nat.le_refl _,
            advances_of_stage_asleep (next.trans (congrArg some (congrArg Prod.fst sleeps)))⟩

/-! ## Runs -/

/--
How much of a run is left at most, from a time and after so many retries, while
the clock moves to a target: the way to the target and the retries that sleeps
at one time can use up.
-/
def remaining (target now : Binary64) (retried : Nat) : Nat :=
  (target.place - now.place + 1).toNat + (patience - retried)

/-- A burst that falls asleep until a time that is reached leaves less of the run. -/
theorem remaining_lt_of_burst_asleep {policy : Policy} {target now due : Binary64}
    {attempt : State → Except Failure Success × State}
    {fuel retried asleep : Nat} {state after : State}
    (sleeps : policy.burst now attempt fuel retried state = (.asleep asleep due, after))
    (reached : now.place ≤ target.place) :
    remaining target due asleep < remaining target now retried := by
  obtain ⟨last, later, rfl, advances⟩ := advances_of_burst_asleep sleeps
  unfold remaining
  rcases advances with ahead | ⟨rfl, left⟩
  · simp only [Binary64.lt, Bool.and_eq_true, decide_eq_true_eq] at ahead
    omega
  · omega

/--
A run from a time of the clock, after so many retries, while the clock moves
to a target. An attempt knows the time at which it is made.
-/
def runUntil (policy : Policy) (target : Binary64)
    (attempt : Binary64 → State → Except Failure Success × State)
    (now : Binary64) (retried : Nat) (state : State) :
    Stage Failure Success × State :=
  match _run : policy.burst now (attempt now) patience retried state with
  | (.ended result, state) => (.ended result, state)
  | (.asleep retried due, state) =>
      if due.le target then runUntil policy target attempt due retried state
      else (.asleep retried due, state)
  termination_by remaining target now retried
  decreasing_by
    have reached : due.le target = true := ‹_›
    simp only [Binary64.le, Bool.and_eq_true, decide_eq_true_eq] at reached
    refine remaining_lt_of_burst_asleep _run ?_
    obtain ⟨_, _, _, ahead | ⟨same, _⟩⟩ := advances_of_burst_asleep _run
    · simp only [Binary64.lt, Bool.and_eq_true, decide_eq_true_eq] at ahead
      omega
    · rw [← same]; exact reached.2

/-! ## Trials -/

/-- The attempts of a trial: how many there were, and their times, the latest first. -/
structure Trial where
  made : Nat
  times : List Binary64
  deriving DecidableEq

/-- The trial before its first attempt. -/
def Trial.empty : Trial := ⟨0, []⟩

/-- One attempt of an effect that succeeds at a given attempt, if ever. -/
def Trial.attempt (succeedsAt : Option Nat) (now : Binary64) (trial : Trial) :
    Except Nat Nat × Trial :=
  let number := trial.made + 1
  (if succeedsAt = some number then .ok number else .error number,
    ⟨number, now :: trial.times⟩)

/--
A run of such an effect from a time of the clock, with the times of its
attempts. If there is a target, the clock is then moved to it.
-/
def runTrial (policy : Policy) (succeedsAt : Option Nat) (start : Binary64)
    (target : Option Binary64) : Stage Nat Nat × List Binary64 :=
  let attempt := Trial.attempt succeedsAt
  let (stage, trial) :=
    match target with
    | none => policy.burst start (attempt start) patience 0 .empty
    | some target => policy.runUntil target attempt start 0 .empty
  (stage, trial.times.reverse)

end Policy

end ConvergentStore
