import ConvergentStore.Proofs.Retry.Delays
import ConvergentStore.Proofs.Retry.Spacing

/-!
# Runs under a policy

An effect is attempted until it succeeds or the policy allows no more attempts,
so the number of its last attempt is known beforehand (`Policy.lastAttempt`). If
the delay is a whole number of milliseconds, then the attempts are one delay
apart, as far as their times are numbers of the format, and when the clock has
moved to a time, those have been made whose time has come (`retry_bounded`).
-/

namespace ConvergentStore

-- Powers of natural numbers are the same under every import.
attribute [local instance(high)] instPowNat

/-! ## Times -/

namespace Binary64

/-- An integer is not above a number. -/
def Reaches (x : Binary64) (n : Int) : Prop :=
  x.isNaN = false ∧ (scale : Int) * n ≤ x.place

theorem le_iff_reaches {x y : Binary64} {n : Int} (whole : x.toInt? = some n) :
    x.le y = true ↔ y.Reaches n := by
  rw [le_iff, place_of_toInt? whole, Reaches]
  simp only [isNaN_of_toInt? whole, true_and]

theorem Reaches.mono {x : Binary64} {n m : Int} (reached : x.Reaches n) (below : m ≤ n) :
    x.Reaches m := by
  have positive : (0 : Int) < scale := by exact_mod_cast scale_pos
  exact ⟨reached.1, ((Int.mul_le_mul_left positive).mpr below).trans reached.2⟩

theorem reaches_iff_of_toInt? {x : Binary64} {n m : Int} (whole : x.toInt? = some m) :
    x.Reaches n ↔ n ≤ m := by
  have positive : (0 : Int) < scale := by exact_mod_cast scale_pos
  rw [Reaches, place_of_toInt? whole, Int.mul_le_mul_left positive]
  simp only [isNaN_of_toInt? whole, true_and]

end Binary64

namespace Policy

/-! ## Attempts -/

section

variable {State Failure Success : Type}
  (attempt : Binary64 → State → Except Failure Success × State)

/-- What attempts at given times come to, one after another, and the state that they leave. -/
def attemptsAt : List Binary64 → State → List (Except Failure Success) × State
  | [], state => ([], state)
  | now :: later, state =>
      let (result, next) := attempt now state
      let (results, last) := attemptsAt later next
      (result :: results, last)

theorem attemptsAt_concat (times : List Binary64) (now : Binary64) (state : State) :
    attemptsAt attempt (times ++ [now]) state =
      ((attemptsAt attempt times state).1 ++
          [(attempt now (attemptsAt attempt times state).2).1],
        (attempt now (attemptsAt attempt times state).2).2) := by
  induction times generalizing state with
  | nil => rfl
  | cons first later ih =>
      simp only [List.cons_append, attemptsAt, ih]

/--
An effect first succeeds at the attempt with a number, or never, at whatever times
its attempts are made.
-/
structure FirstSucceeds (state : State) (succeedsAt : Option Nat) : Prop where
  positive : ∀ number ∈ succeedsAt, 0 < number
  fails : ∀ times now, (∀ number ∈ succeedsAt, times.length + 1 < number) →
    (attempt now (attemptsAt attempt times state).2).1.isOk = false
  succeeds : ∀ times now, succeedsAt = some (times.length + 1) →
    (attempt now (attemptsAt attempt times state).2).1.isOk = true

end

/-- The number of the last attempt of an effect: it succeeds, or no more are allowed. -/
def lastAttempt (policy : Policy) : Option Nat → Nat
  | some number => min number policy.allowance
  | none => policy.allowance

theorem lastAttempt_le (policy : Policy) (succeedsAt : Option Nat) :
    policy.lastAttempt succeedsAt ≤ policy.allowance := by
  cases succeedsAt with
  | none => exact le_rfl
  | some number => exact min_le_right _ _

section

variable {State Failure Success : Type}
  {attempt : Binary64 → State → Except Failure Success × State}
  {state : State}
  {succeedsAt : Option Nat}
  {policy : Policy}
  (first : FirstSucceeds attempt state succeedsAt)

include first

theorem FirstSucceeds.one_le_lastAttempt (policy : Policy) :
    1 ≤ policy.lastAttempt succeedsAt := by
  cases succeedsAt with
  | none => exact policy.one_le_allowance
  | some number => exact le_min (first.positive number rfl) policy.one_le_allowance

/-- An attempt before the last one fails. -/
theorem FirstSucceeds.isOk_of_lt
    {times : List Binary64}
    (before : times.length + 1 < policy.lastAttempt succeedsAt)
    (now : Binary64) :
    (attempt now (attemptsAt attempt times state).2).1.isOk = false := by
  refine first.fails times now ?_
  rintro number ⟨⟩
  exact before.trans_le (min_le_left _ _)

/-- The last attempt succeeds if the policy allows as many attempts as it takes. -/
theorem FirstSucceeds.isOk_of_eq
    {times : List Binary64}
    (last : times.length + 1 = policy.lastAttempt succeedsAt)
    (now : Binary64) :
    (attempt now (attemptsAt attempt times state).2).1.isOk = true ↔
      ∃ number ∈ succeedsAt, number ≤ policy.allowance := by
  constructor
  · intro succeeds
    by_contra short
    have fails := first.fails times now fun number held => by
      rcases held
      have less : policy.allowance < number :=
        not_le.mp fun enough => short ⟨number, rfl, enough⟩
      rw [last, lastAttempt, min_eq_right less.le]
      exact less
    rw [succeeds] at fails
    cases fails
  · rintro ⟨number, ⟨⟩, enough⟩
    refine first.succeeds times now ?_
    rw [last, lastAttempt, min_eq_left enough]

/-- After an attempt that failed, the last one is still to come if one more is allowed. -/
theorem FirstSucceeds.lt_lastAttempt
    {times : List Binary64}
    {now : Binary64}
    (fails : (attempt now (attemptsAt attempt times state).2).1.isOk = false)
    (before : times.length < policy.lastAttempt succeedsAt)
    (room : times.length + 1 < policy.allowance) :
    times.length + 1 < policy.lastAttempt succeedsAt := by
  by_contra reached
  have last : times.length + 1 = policy.lastAttempt succeedsAt := by omega
  have vain := first.isOk_of_eq last now
  rw [fails] at vain
  cases succeedsAt with
  | none => exact absurd last room.ne
  | some number =>
      have short : policy.allowance < number :=
        not_le.mp fun enough => Bool.false_ne_true (vain.mpr ⟨number, rfl, enough⟩)
      rw [lastAttempt, min_eq_right short.le] at last
      exact absurd last room.ne

end

/-! ## Runs -/

section

variable {State Failure Success : Type}
  (attempt : Binary64 → State → Except Failure Success × State)
  (state : State)
  (c : Int)
  (d : Nat)

/-- Attempts were made one delay after another, and nothing else has changed the state. -/
structure Made (times : List Binary64) (left : State) : Prop where
  spaced : ∀ (retried : Nat) (time : Binary64), times[retried]? = some time →
    time.toInt? = some (c + d * retried)
  left : left = (attemptsAt attempt times state).2

variable {attempt state c d}

/-- One more attempt, a delay after the last one. -/
theorem Made.next
    {times : List Binary64}
    {left after : State}
    {now : Binary64}
    {result : Except Failure Success}
    (made : Made attempt state c d times left)
    (time : now.toInt? = some (c + d * times.length))
    (attempted : attempt now left = (result, after)) :
    Made attempt state c d (times ++ [now]) after ∧
      (attemptsAt attempt (times ++ [now]) state).1.getLast? = some result := by
  rw [made.left] at attempted
  refine ⟨⟨?spaced, ?left⟩, ?result⟩
  case spaced =>
    intro retried moment found
    rw [List.getElem?_append] at found
    split at found
    · exact made.spaced retried moment found
    · next past =>
        rw [List.getElem?_singleton] at found
        split at found
        · next here =>
            cases found
            rw [time]
            congr 3
            omega
        · cases found
  case left => rw [attemptsAt_concat, attempted]
  case result => rw [attemptsAt_concat, attempted, List.getLast?_concat]

end

section

variable {State Failure Success : Type}
  (policy : Policy)
  (attempt : Binary64 → State → Except Failure Success × State)
  (state : State)
  (succeedsAt : Option Nat)
  (c : Int)
  (d : Nat)

/--
Where a run stands after attempts: it has ended with what the last one came to, or
sleeps until the next one.
-/
def Rests (times : List Binary64) : Stage Failure Success → Prop
  | .ended result =>
      times.length = policy.lastAttempt succeedsAt ∧
        (attemptsAt attempt times state).1.getLast? = some result
  | .asleep retried due =>
      0 < d ∧ retried = times.length ∧ retried < policy.lastAttempt succeedsAt ∧
        due.toInt? = some (c + d * retried)

variable (target : Binary64)

/-- One more attempt is to be made, at a time that the clock has come to. -/
structure Ready (now : Binary64) (times : List Binary64) (left : State) : Prop where
  made : Made attempt state c d times left
  before : times.length < policy.lastAttempt succeedsAt
  time : now.toInt? = some (c + d * times.length)
  come : now.le target = true

/-- Attempts were made, more than there were before, and no other one follows them at once. -/
structure Paused (earlier : Nat) (times : List Binary64) (left : State)
    (stage : Stage Failure Success) : Prop where
  made : Made attempt state c d times left
  more : earlier < times.length
  reached : ∀ retried < times.length, target.Reaches (c + d * retried)
  rests : Rests policy attempt state succeedsAt c d times stage

/--
How far a run has come when the clock has moved to a time: the attempts that were
made, what they came to, and whether there is another one to come.
-/
structure Tried (times : List Binary64) (run : Stage Failure Success × State) : Prop where
  /-- The attempts are one delay apart, and they alone have changed the state. -/
  attempts : Made attempt state c d times run.2
  /-- No attempt follows the last one. -/
  most : times.length ≤ policy.lastAttempt succeedsAt
  /-- Of the attempts up to the last one those were made whose time has come. -/
  made : ∀ retried < policy.lastAttempt succeedsAt,
    (retried < times.length ↔ target.Reaches (c + d * retried))
  /-- The run is asleep exactly if the time of one of them is still to come. -/
  pending : (∃ retried due, run.1 = .asleep retried due) ↔
    ∃ retried < policy.lastAttempt succeedsAt, ¬ target.Reaches (c + d * retried)
  /-- It sleeps until the time of the next attempt. -/
  next : ∀ retried due, run.1 = .asleep retried due →
    retried = times.length ∧ due.toInt? = some (c + d * retried)
  /-- It ends with what the last attempt came to. -/
  ended : ∀ result, run.1 = .ended result →
    times.length = policy.lastAttempt succeedsAt ∧
      (attemptsAt attempt times state).1.getLast? = some result ∧
        (result.isOk = true ↔ ∃ number ∈ succeedsAt, number ≤ policy.allowance)

end

/--
Up to a time of the clock, no attempt is made or due at a time that is rounded:
each of them, and the one after them, has a number of the format for its time.
-/
def Unrounded
    (policy : Policy)
    (succeedsAt : Option Nat)
    (c : Int)
    (d : Nat)
    (target : Binary64) : Prop :=
  ∀ retried, retried + 1 < policy.lastAttempt succeedsAt →
    target.Reaches (c + d * retried) → Binary64.Exact (c + d * (retried + 1 : Nat))

/-- Times up to `2 ^ 53` in absolute value are not rounded. -/
theorem unrounded_of_natAbs_le
    {policy : Policy}
    {succeedsAt : Option Nat}
    {c : Int}
    {d : Nat}
    (small : ∀ retried < policy.lastAttempt succeedsAt, (c + d * retried).natAbs ≤ 2 ^ 53)
    (target : Binary64) :
    policy.Unrounded succeedsAt c d target :=
  fun _ before _ => Binary64.exact_of_natAbs_le (small _ before)

section

variable {State Failure Success : Type}
  {attempt : Binary64 → State → Except Failure Success × State}
  {state : State}
  {succeedsAt : Option Nat}
  {policy : Policy}
  {c : Int}
  {d : Nat}
  {target : Binary64}
  (bounded : policy.Bounded)
  (first : FirstSucceeds attempt state succeedsAt)
  (delay : policy.delay.toInt? = some (d : Int))
  (exact : policy.Unrounded succeedsAt c d target)

include bounded first delay exact

omit bounded first delay exact in
/-- The times of the attempts up to the one that is to be made have come. -/
theorem Ready.reached
    {now : Binary64}
    {times : List Binary64}
    {left : State}
    (ready : Ready policy attempt state succeedsAt c d target now times left) :
    ∀ retried ≤ times.length, target.Reaches (c + d * retried) := by
  intro retried earlier
  refine ((Binary64.le_iff_reaches ready.time).mp ready.come).mono (Int.add_le_add_left ?_ c)
  exact Int.mul_le_mul_of_nonneg_left (by omega) (Int.natCast_nonneg d)

omit bounded first delay exact in
/-- When the attempt was made and no other one follows at once, there is one more. -/
theorem Ready.paused
    {now : Binary64}
    {times : List Binary64}
    {left after : State}
    {result : Except Failure Success}
    {stage : Stage Failure Success}
    {earlier : Nat}
    (ready : Ready policy attempt state succeedsAt c d target now times left)
    (attempted : attempt now left = (result, after))
    (since : earlier ≤ times.length)
    (rests : Rests policy attempt state succeedsAt c d (times ++ [now]) stage) :
    Paused policy attempt state succeedsAt c d target earlier (times ++ [now]) after stage := by
  have length : (times ++ [now]).length = times.length + 1 := List.length_append
  refine ⟨(ready.made.next ready.time attempted).1, by omega, ?_, rests⟩
  intro retried among
  exact ready.reached retried (by omega)

/-- A failed attempt that is not the last one is followed by another one, a delay later. -/
theorem Ready.pause_of_fails
    {times : List Binary64}
    {left after : State}
    {now : Binary64}
    {failure : Failure}
    (ready : Ready policy attempt state succeedsAt c d target now times left)
    (attempted : attempt now left = (.error failure, after)) :
    policy.pause times.length now = .giveUp ∧
        times.length + 1 = policy.lastAttempt succeedsAt ∨
      times.length + 1 < policy.lastAttempt succeedsAt ∧
        (d = 0 ∧ policy.pause times.length now = .again ∨
          0 < d ∧ ∃ due, policy.pause times.length now = .sleep due ∧
            due.toInt? = some (c + d * (times.length + 1 : Nat))) := by
  have most := policy.lastAttempt_le succeedsAt
  have before := ready.before
  have fails : (attempt now (attemptsAt attempt times state).2).1.isOk = false := by
    rw [← ready.made.left, attempted]
    rfl
  cases allowed : policy.allows times.length with
  | false =>
      have full := mt bounded.allows_iff.mpr (Bool.eq_false_iff.mp allowed)
      refine .inl ⟨?_, by omega⟩
      simp [pause, allowed]
  | true =>
      have room := bounded.allows_iff.mp allowed
      have left := first.lt_lastAttempt fails before room
      have next : c + d * (times.length + 1 : Nat) = c + d * times.length + d := by
        push_cast
        ring
      refine .inr ⟨left, ?_⟩
      rw [next]
      have format := exact _ left (ready.reached _ le_rfl)
      rw [next] at format
      rcases pause_of_exact ready.time delay (Int.natCast_nonneg d) format allowed with
        ⟨none, again⟩ | ⟨some, sleeps⟩
      · exact .inl ⟨Int.natCast_eq_zero.mp none, again⟩
      · exact .inr ⟨Int.natCast_pos.mp some, sleeps⟩

/-- An attempt that succeeds, or fails for good, is the last one. -/
theorem Ready.last
    {times : List Binary64}
    {left after : State}
    {now : Binary64}
    {result : Except Failure Success}
    (ready : Ready policy attempt state succeedsAt c d target now times left)
    (attempted : attempt now left = (result, after))
    (failed : ∀ failure, result = .error failure →
      policy.pause times.length now = .giveUp ∨ patience ≤ times.length) :
    times.length + 1 = policy.lastAttempt succeedsAt := by
  have before := ready.before
  cases result with
  | ok value =>
      by_contra notLast
      have room : times.length + 1 < policy.lastAttempt succeedsAt := by omega
      have fails := first.isOk_of_lt room now
      rw [← ready.made.left, attempted] at fails
      cases fails
  | error failure =>
      rcases ready.pause_of_fails bounded first delay exact attempted with
        ⟨_, last⟩ | ⟨room, goesOn⟩
      · exact last
      · exfalso
        rcases failed failure rfl with givesUp | impatient
        · rw [givesUp] at goesOn
          rcases goesOn with ⟨_, ⟨⟩⟩ | ⟨_, _, ⟨⟩, _⟩
        · have most := bounded.allowance_le
          have within := policy.lastAttempt_le succeedsAt
          unfold patience at impatient
          omega

/--
A burst makes the attempts of one time. When it is over, the last attempt was made
or the next one is due one delay later.
-/
theorem Ready.burst
    {now : Binary64}
    {times : List Binary64}
    {left : State}
    (ready : Ready policy attempt state succeedsAt c d target now times left) :
    let run := policy.burst now (attempt now) patience times.length left
    ∃ more, Paused policy attempt state succeedsAt c d target times.length more run.2 run.1 := by
  refine burst_rule
    (fun retried current => ∃ more,
      Ready policy attempt state succeedsAt c d target now more current ∧
        more.length = retried ∧ times.length ≤ retried)
    (fun stage current => ∃ more,
      Paused policy attempt state succeedsAt c d target times.length more current stage)
    patience ?ends ?sleeps ?repeats patience (Nat.le_add_left _ _) ⟨times, ready, rfl, le_rfl⟩
  case ends =>
    rintro _ current result after ⟨more, ready, rfl, later⟩ attempted failed
    have last := ready.last bounded first delay exact attempted failed
    refine ⟨_, ready.paused attempted later ⟨?_, (ready.made.next ready.time attempted).2⟩⟩
    rw [← last, List.length_append, List.length_singleton]
  case sleeps =>
    rintro _ current failure after due ⟨more, ready, rfl, later⟩ attempted sleeps
    rcases ready.pause_of_fails bounded first delay exact attempted with
      ⟨givesUp, _⟩ | ⟨room, ⟨_, again⟩ | ⟨some, moment, also, whole⟩⟩
    · rw [sleeps] at givesUp
      cases givesUp
    · rw [sleeps] at again
      cases again
    · rw [sleeps] at also
      cases also
      exact ⟨_, ready.paused attempted later ⟨some, by simp, room, whole⟩⟩
  case repeats =>
    rintro _ current failure after ⟨more, ready, rfl, later⟩ attempted again
    rcases ready.pause_of_fails bounded first delay exact attempted with
      ⟨givesUp, _⟩ | ⟨room, ⟨none, _⟩ | ⟨_, moment, sleeps, _⟩⟩
    · rw [again] at givesUp
      cases givesUp
    · -- Without a delay the next attempt falls on the same time.
      have time := ready.time
      subst none
      simp only [Int.natCast_zero, Int.zero_mul, Int.add_zero] at time
      have length : (more ++ [now]).length = more.length + 1 := List.length_append
      refine ⟨_, ⟨(ready.made.next ready.time attempted).1, length ▸ room, ?_, ready.come⟩,
        length, by omega⟩
      simpa using time
    · rw [again] at sleeps
      cases sleeps

omit bounded delay exact in
/-- What a run has come to when it has ended, or sleeps beyond the time of the clock. -/
theorem Paused.tried
    {times : List Binary64}
    {left : State}
    {stage : Stage Failure Success}
    {earlier : Nat}
    (paused : Paused policy attempt state succeedsAt c d target earlier times left stage)
    (early : ∀ retried due, stage = .asleep retried due → due.le target = false) :
    Tried policy attempt state succeedsAt c d target times (stage, left) := by
  rcases paused with ⟨made, more, past, rests⟩
  cases stage with
  | ended result =>
      rcases rests with ⟨last, came⟩
      rw [last] at past
      refine ⟨made, last.le, ?_, ?_, nofun, ?_⟩
      · intro retried before
        exact ⟨fun _ => past retried before, fun _ => last.symm ▸ before⟩
      · constructor
        · rintro ⟨retried, due, ⟨⟩⟩
        · rintro ⟨retried, before, notYet⟩
          exact absurd (past retried before) notYet
      · rintro _ ⟨⟩
        refine ⟨last, came, ?_⟩
        rcases List.eq_nil_or_concat times with rfl | ⟨others, now, rfl⟩
        · cases more
        · rw [List.length_concat] at last
          rw [List.concat_eq_append, attemptsAt_concat, List.getLast?_concat] at came
          cases came
          exact first.isOk_of_eq last now
  | asleep retried due =>
      rcases rests with ⟨_, rfl, before, time⟩
      have notYet : ¬ target.Reaches (c + d * times.length) := by
        rw [← Binary64.le_iff_reaches time, early _ due rfl]
        exact Bool.false_ne_true
      refine ⟨made, before.le, ?_, ?_, ?_, nofun⟩
      · intro retried _
        refine ⟨past retried, fun reached => ?_⟩
        by_contra later
        refine notYet (reached.mono (Int.add_le_add_left ?_ c))
        exact Int.mul_le_mul_of_nonneg_left (by omega) (Int.natCast_nonneg d)
      · exact ⟨fun _ => ⟨_, before, notYet⟩, fun _ => ⟨_, due, rfl⟩⟩
      · rintro _ _ ⟨⟩
        exact ⟨rfl, time⟩

/-- A run that is under way goes on until its last attempt, or as far as the clock moves. -/
theorem Ready.runUntil
    {now : Binary64}
    {times : List Binary64}
    {left : State}
    (ready : Ready policy attempt state succeedsAt c d target now times left) :
    ∃ more, Tried policy attempt state succeedsAt c d target more
      (policy.runUntil target attempt now times.length left) := by
  -- The induction is on the number of attempts up to the last one.
  induction remaining : policy.lastAttempt succeedsAt - times.length using Nat.strongRecOn
    generalizing now times left with
  | ind remaining ih =>
      have before := ready.before
      rcases ready.burst bounded first delay exact with ⟨more, paused⟩
      rw [Policy.runUntil]
      split
      · next result after run =>
          rw [run] at paused
          refine ⟨more, paused.tried first ?_⟩
          rintro _ _ ⟨⟩
      · next retried due after run =>
          rw [run] at paused
          split
          · next come =>
              rcases paused with ⟨made, longer, _, _, rfl, left, moment⟩
              exact ih _ (by omega) ⟨made, left, moment, come⟩ rfl
          · next early =>
              refine ⟨more, paused.tried first ?_⟩
              rintro _ _ ⟨⟩
              exact Bool.eq_false_iff.mpr early

end

section

variable {State Failure Success : Type}
  {attempt : Binary64 → State → Except Failure Success × State}
  {state : State}
  {succeedsAt : Option Nat}
  {policy : Policy}
  {start : Binary64}
  {c : Int}
  (whole : start.toInt? = some c)

include whole

/-- At the start no attempt was made, and the first one is to be made at once. -/
theorem ready_start
    {target : Binary64}
    (d : Nat)
    (first : FirstSucceeds attempt state succeedsAt)
    (come : start.le target = true) :
    Ready policy attempt state succeedsAt c d target start [] state := by
  refine ⟨⟨nofun, rfl⟩, first.one_le_lastAttempt policy, ?_, come⟩
  simpa using whole

/-- While the clock does not move, those attempts are made that are due at its time. -/
theorem tried_burst
    {d : Nat}
    (bounded : policy.Bounded)
    (first : FirstSucceeds attempt state succeedsAt)
    (delay : policy.delay.toInt? = some (d : Int))
    (exact : policy.Unrounded succeedsAt c d start) :
    ∃ times, Tried policy attempt state succeedsAt c d start times
      (policy.burst start (attempt start) patience 0 state) := by
  have ready : Ready policy attempt state succeedsAt c d start start [] state :=
    ready_start whole d first (Binary64.le_self_of_toInt? whole)
  rcases ready.burst bounded first delay exact with ⟨times, paused⟩
  refine ⟨times, paused.tried first ?_⟩
  intro retried due asleep
  have rests : Rests policy attempt state succeedsAt c d times (.asleep retried due) :=
    asleep ▸ paused.rests
  rcases rests with ⟨positive, rfl, _, time⟩
  rw [← Bool.not_eq_true, Binary64.le_iff_of_toInt? time whole]
  have later : (0 : Int) < d * times.length := by
    exact_mod_cast Nat.mul_pos positive paused.more
  omega

/-- With an infinite delay nothing follows the first attempt. -/
theorem runUntil_of_unbounded
    (infinite : policy.delay = .unbounded)
    (target : Binary64) :
    policy.runUntil target attempt start 0 state =
      (.ended (attempt start state).1, (attempt start state).2) := by
  have givesUp : policy.pause 0 start = .giveUp := by
    cases start with
    | nan => cases whole
    | infinity negative => cases whole
    | finite negative units fits =>
        have sum : Binary64.finite negative units fits + .unbounded = .unbounded := rfl
        simp [pause, infinite, sum, Binary64.isFinite]
  have stage : policy.stage start 0 (attempt start state).1 =
      some (.ended (attempt start state).1) := by
    cases (attempt start state).1 with
    | ok value => rfl
    | error failure => simp [Policy.stage, givesUp]
  have burst : policy.burst start (attempt start) patience 0 state =
      (.ended (attempt start state).1, (attempt start state).2) := by
    cases patience with
    | zero => simp [Policy.burst, stage]
    | succ fuel => simp [Policy.burst, stage]
  rw [runUntil]
  split
  · next ended => rw [← ended, burst]
  · next asleep =>
      rw [burst] at asleep
      cases asleep

end

/-- When the times of all attempts have come, the last one was made and the run has ended. -/
theorem Tried.ended_of_reached
    {State Failure Success : Type}
    {policy : Policy}
    {attempt : Binary64 → State → Except Failure Success × State}
    {state : State}
    {succeedsAt : Option Nat}
    {c : Int}
    {d : Nat}
    {target : Binary64}
    {times : List Binary64}
    {run : Stage Failure Success × State}
    (tried : Tried policy attempt state succeedsAt c d target times run)
    (reached : ∀ retried < policy.lastAttempt succeedsAt, target.Reaches (c + d * retried)) :
    ∃ result, run.1 = .ended result ∧ times.length = policy.lastAttempt succeedsAt ∧
      (attemptsAt attempt times state).1.getLast? = some result ∧
        (result.isOk = true ↔ ∃ number ∈ succeedsAt, number ≤ policy.allowance) := by
  cases stands : run.1 with
  | ended result => exact ⟨result, rfl, tried.ended result stands⟩
  | asleep retried due =>
      rcases tried.pending.mp ⟨retried, due, stands⟩ with ⟨later, before, notYet⟩
      exact absurd (reached later before) notYet

/-! ## Trials -/

/-- The attempts of a trial are counted, and their times recorded. -/
theorem attemptsAt_trial (succeedsAt : Option Nat) (times : List Binary64) (trial : Trial) :
    (attemptsAt (Trial.attempt succeedsAt) times trial).2 =
      ⟨trial.made + times.length, times.reverse ++ trial.times⟩ := by
  induction times generalizing trial with
  | nil => rfl
  | cons now later ih =>
      simp only [attemptsAt, ih, Trial.attempt, List.length_cons, List.reverse_cons,
        List.append_assoc, List.singleton_append, Nat.add_assoc, Nat.add_comm 1]

/-- A trial first succeeds where it is meant to. -/
theorem firstSucceeds_trial
    {succeedsAt : Option Nat}
    (positive : ∀ number ∈ succeedsAt, 0 < number) :
    FirstSucceeds (Trial.attempt succeedsAt) Trial.empty succeedsAt := by
  have number : ∀ times : List Binary64,
      (attemptsAt (Trial.attempt succeedsAt) times Trial.empty).2.made = times.length := by
    intro times
    rw [attemptsAt_trial]
    exact Nat.zero_add _
  refine ⟨positive, ?fails, ?succeeds⟩
  case fails =>
    intro times now before
    have other : succeedsAt ≠ some (times.length + 1) :=
      fun same => (before _ same).ne rfl
    simp only [Trial.attempt, number, other, ↓reduceIte]
    rfl
  case succeeds =>
    rintro times now rfl
    simp only [Trial.attempt, number, ↓reduceIte]
    rfl

/-! ## Bounded runs -/

/--
A run from a whole time of the clock, under a policy with a whole delay and a bounded
number of attempts, of an effect that first succeeds at some attempt or never: it makes
as many attempts as it takes and the policy allows, one delay apart, and ends with what
the last one came to. If the clock moves less far, or not at all, then those have been
made whose time has come, and the run is asleep until the next one. An infinite delay
leaves one attempt, and no delay is negative.
-/
theorem retry_bounded
    {State Failure Success : Type}
    (policy : Policy)
    (attempt : Binary64 → State → Except Failure Success × State)
    (state : State)
    {start : Binary64}
    {c : Int}
    (whole : start.toInt? = some c) :
    (∀ succeedsAt (d : Nat), policy.Bounded → policy.delay.toInt? = some (d : Int) →
      FirstSucceeds attempt state succeedsAt →
        (∀ target, start.le target = true → policy.Unrounded succeedsAt c d target →
          ∃ times, Tried policy attempt state succeedsAt c d target times
              (policy.runUntil target attempt start 0 state) ∧
            ((∀ retried < policy.lastAttempt succeedsAt, target.Reaches (c + d * retried)) →
              ∃ result, (policy.runUntil target attempt start 0 state).1 = .ended result ∧
                times.length = policy.lastAttempt succeedsAt ∧
                (attemptsAt attempt times state).1.getLast? = some result ∧
                (result.isOk = true ↔ ∃ number ∈ succeedsAt, number ≤ policy.allowance))) ∧
          (policy.Unrounded succeedsAt c d start →
            ∃ times, Tried policy attempt state succeedsAt c d start times
              (policy.burst start (attempt start) patience 0 state))) ∧
      (policy.delay = .unbounded → ∀ target,
        policy.runUntil target attempt start 0 state =
          (.ended (attempt start state).1, (attempt start state).2)) ∧
        ∀ input delay, Delay.ofInput input = .ok delay → Binary64.le 0 delay = true := by
  refine ⟨?finite, ?infinite, ?unsigned⟩
  case finite =>
    intro succeedsAt d bounded delay first
    refine ⟨?moved, tried_burst whole bounded first delay⟩
    case moved =>
      intro target come exact
      rcases (ready_start whole d first come).runUntil bounded first delay exact with
        ⟨times, tried⟩
      exact ⟨times, tried, tried.ended_of_reached⟩
  case infinite => exact runUntil_of_unbounded whole
  case unsigned =>
    intro input delay
    exact Delay.zero_le_of_ofInput

/--
Three and a half attempts are three, a quarter of a second apart from `-100` on, of an effect
that takes five. At `200` two of them have been made, and at `1000` the run has failed.
-/
theorem retry_bounded_trial :
    let policy : Policy := ⟨.ofNat 7 / 2, 250⟩
    let run (target : Binary64) :=
      policy.runUntil target (Trial.attempt (some 5)) (.ofInt (-100)) 0 .empty
    (∃ retried due, (run 200).1 = .asleep retried due ∧ due.toInt? = some 400) ∧
      ∃ result, (run 1000).1 = .ended result ∧ result.isOk = false := by
  intro policy run
  have start : (Binary64.ofInt (-100)).toInt? = some (-100) := by decide +kernel
  have delay : policy.delay.toInt? = some ((250 : Nat) : Int) := by decide +kernel
  have early : (200 : Binary64).toInt? = some 200 := Binary64.toInt?_ofNat (by decide)
  have late : (1000 : Binary64).toInt? = some 1000 := Binary64.toInt?_ofNat (by decide)
  have bounded : policy.Bounded := .inr (by decide +kernel)
  have three : policy.allowance = 3 := by decide +kernel
  have last : policy.lastAttempt (some 5) = 3 := by
    rw [lastAttempt, three]
    rfl
  have exact : ∀ target, policy.Unrounded (some 5) (-100) 250 target :=
    unrounded_of_natAbs_le fun retried before => by
      rw [last] at before
      omega
  rcases retry_bounded policy (Trial.attempt (some 5)) .empty start with ⟨finite, _⟩
  rcases finite (some 5) 250 bounded delay
    (firstSucceeds_trial fun number held => by cases held; decide) with ⟨moved, _⟩
  refine ⟨?early, ?late⟩
  case early =>
    rcases moved 200 ((Binary64.le_iff_of_toInt? start early).mpr (by decide)) (exact 200) with
      ⟨times, tried, _⟩
    have reached (retried : Nat) :
        (200 : Binary64).Reaches (-100 + (250 : Nat) * retried) ↔ retried ≤ 1 := by
      rw [Binary64.reaches_iff_of_toInt? early]
      omega
    have two : times.length = 2 := by
      have second := (tried.made 1 (by rw [last]; decide)).mpr ((reached 1).mpr (by decide))
      have third := mt (tried.made 2 (by rw [last]; decide)).mp (mt (reached 2).mp (by decide))
      omega
    rcases tried.pending.mpr ⟨2, by rw [last]; decide, mt (reached 2).mp (by decide)⟩ with
      ⟨retried, due, asleep⟩
    rcases tried.next retried due asleep with ⟨rfl, time⟩
    rw [two] at time
    exact ⟨_, due, asleep, time⟩
  case late =>
    rcases moved 1000 ((Binary64.le_iff_of_toInt? start late).mpr (by decide)) (exact 1000) with
      ⟨times, _, complete⟩
    rcases complete fun retried before => by
      rw [Binary64.reaches_iff_of_toInt? late]
      rw [last] at before
      omega with ⟨result, ended, _, _, succeeds⟩
    refine ⟨result, ended, ?_⟩
    rw [← Bool.not_eq_true, succeeds, three]
    rintro ⟨number, ⟨⟩, impossible⟩
    omega

end Policy

end ConvergentStore
