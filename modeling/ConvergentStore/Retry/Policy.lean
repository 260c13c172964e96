import ConvergentStore.Retry.Delay

/-!
# Retry policies

A policy allows a number of attempts with one delay between them. After a
failed attempt it says what follows: to give up, to try again at once, or to
sleep until a due time on the clock. The due time is later than the attempt,
except where time stands still: at an infinite time a sleep is due at once, and
yet it lasts until the clock is moved. `advances_of_pause_sleep` says so, and
that such sleeps are not followed by others without end.
-/

namespace ConvergentStore

-- Powers of natural numbers are the same under every import.
attribute [local instance(high)] instPowNat

/-- How often to attempt, and how long to wait in between. -/
structure Policy where
  /-- All attempts, the first one included; less than one counts as one. -/
  maxAttempts : Binary64
  /-- Milliseconds from a failure to the next attempt. -/
  delay : Binary64
  deriving DecidableEq

/-- What follows a failed attempt. -/
inductive Pause where
  | giveUp
  | again
  | sleep (due : Binary64)
  deriving DecidableEq

namespace Policy

/-- Three attempts, one second apart. -/
def standard : Policy := ⟨3, 1000⟩

/-- The policy with a given number of attempts and delay. -/
def ofInput (maxAttempts : Binary64) (delay : DelayInput) : Except DelayFault Policy :=
  (Delay.ofInput delay).map fun delay => ⟨maxAttempts, delay⟩

/-- How many attempts may follow the first one; `nan` if their number is. -/
def retries (policy : Policy) : Binary64 :=
  Binary64.max 0 (policy.maxAttempts.floor - 1)

/--
Whether one more attempt may follow so many retries. Retries are counted in
binary64, so a number of retries beyond `2 ^ 53` is never used up.
-/
def allows (policy : Policy) (retried : Nat) : Bool :=
  (Binary64.ofNat retried).lt policy.retries ||
    (Binary64.ofNat (2 ^ (53 : Nat))).lt policy.retries

/-- How many attempts may follow one another at one time of the clock. -/
@[irreducible]
def patience : Nat := 2 ^ (53 : Nat)

/--
What follows an attempt that failed at a time of the clock, after so many
retries. A finite time has no attempt after it that starts at an infinite one.
-/
def pause (policy : Policy) (retried : Nat) (now : Binary64) : Pause :=
  let start := now + policy.delay
  let wait := start - now
  let due := now + Delay.ofMillis wait
  if !policy.allows retried || (now.isFinite && start = Binary64.unbounded) then .giveUp
  else if now.lt due then .sleep due
  else if wait.le 0 then .again
  else if retried < patience then .sleep now
  else .giveUp

/--
Whether a sleep after so many retries leads on: its due time is later than the
attempt before it, or it is the same and the retries are not used up yet.
-/
def Advances (now due : Binary64) (retried : Nat) : Prop :=
  now.lt due = true ∨ due = now ∧ retried < patience

theorem advances_of_pause_sleep {policy : Policy} {retried : Nat} {now due : Binary64}
    (sleeps : policy.pause retried now = .sleep due) : Advances now due retried := by
  simp only [pause] at sleeps
  split at sleeps
  · cases sleeps
  · split at sleeps
    · next later => cases sleeps; exact .inl later
    · split at sleeps
      · cases sleeps
      · split at sleeps
        · next left => cases sleeps; exact .inr ⟨rfl, left⟩
        · cases sleeps

end Policy

end ConvergentStore
