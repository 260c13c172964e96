import ConvergentStore.Session.Publishing

/-!
# The clock of a session

Moving the clock wakes the calls that are due by then, one after another in
order of due time, and of two that are due at the same time the one that fell
asleep first. A woken call sees its due time on the clock and runs until it
ends or falls asleep again. As every attempt takes it nearer to its end, every
move comes to an end: `ahead` says how much of it is left.
-/

namespace ConvergentStore.Session

/-! ## Waking -/

/-- The first sleeping call of those that are due first, if it is due by a time, and the others. -/
def takeDue (target : Binary64) : List Call → Option (Call × List Call)
  | [] => none
  | call :: rest =>
      match takeDue target rest with
      | none => if call.due.le target then some (call, rest) else none
      | some (first, others) =>
          if call.due.le target && call.due.le first.due then some (call, rest)
          else some (first, call :: others)

/-- A call that is woken with the clock at its due time, the other calls still asleep. -/
def wake (session : Session) (call : Call) (others : List Call) (state : State) :
    State × Trace :=
  let (progress, relay) := session.proceed call.index call.operation call.outbound
    call.retried call.due state.attempts
  let state := { state with clock := call.due, attempts := relay.attempts }
  match progress with
  | .ended outcome =>
      ({ state with asleep := others }, relay.trace ++ .ofFinished call.index outcome)
  | .asleep call => ({ state with asleep := others ++ [call] }, relay.trace)

/-! ## Moving -/

/-- How much of a sleeping call is left at most, while the clock moves to a time. -/
def Call.ahead (target : Binary64) (call : Call) : Nat :=
  Policy.remaining target call.due call.retried

/-- How much of sleeping calls is left at most, in total. -/
def ahead (target : Binary64) : List Call → Nat
  | [] => 0
  | call :: rest => call.ahead target + ahead target rest

theorem ahead_concat (target : Binary64) (calls : List Call) (last : Call) :
    ahead target (calls ++ [last]) = ahead target calls + last.ahead target := by
  induction calls with
  | nil => simp [ahead]
  | cons call rest ih =>
      simp only [List.cons_append, ahead, ih]
      omega

theorem ahead_takeDue {target : Binary64} {calls others : List Call} {call : Call}
    (taken : takeDue target calls = some (call, others)) :
    call.due.le target = true ∧ ahead target calls = call.ahead target + ahead target others := by
  induction calls generalizing call others with
  | nil => cases taken
  | cons head rest ih =>
      simp only [takeDue] at taken
      cases found : takeDue target rest with
      | none =>
          rw [found] at taken
          simp only at taken
          split at taken
          · next reached => cases taken; exact ⟨reached, by simp [ahead]⟩
          · cases taken
      | some pair =>
          obtain ⟨first, left⟩ := pair
          rw [found] at taken
          simp only at taken
          have ⟨reached, total⟩ := ih found
          split at taken
          · next both =>
              cases taken
              simp only [Bool.and_eq_true] at both
              exact ⟨both.1, by simp [ahead]⟩
          · cases taken
            refine ⟨reached, ?_⟩
            simp only [ahead] at total ⊢
            omega

theorem ahead_wake {session : Session} {target : Binary64} {calls others : List Call}
    {call : Call} {state : State}
    (taken : takeDue target calls = some (call, others)) :
    ahead target (session.wake call others state).1.asleep < ahead target calls := by
  have ⟨reached, total⟩ := ahead_takeDue taken
  have place : call.due.place ≤ target.place := by
    simp only [Binary64.le, Bool.and_eq_true, decide_eq_true_eq] at reached
    exact reached.2
  rw [total]
  simp only [wake]
  cases proceeded : session.proceed call.index call.operation call.outbound call.retried
      call.due state.attempts with
  | mk progress relay =>
      cases progress with
      | ended outcome =>
          simp only [Call.ahead, Policy.remaining]
          omega
      | asleep next =>
          have less := remaining_lt_of_proceed_asleep proceeded place
          simp only [ahead_concat, Call.ahead]
          omega

/-- The clock set to a time, and the calls woken that are due by then. -/
def setClock (session : Session) (target : Binary64) (state : State) : State × Trace :=
  match _taken : takeDue target state.asleep with
  | none => ({ state with clock := target }, .empty)
  | some (call, others) =>
      let woken := session.wake call others state
      let (final, trace) := session.setClock target woken.1
      (final, woken.2 ++ trace)
  termination_by ahead target state.asleep
  decreasing_by exact ahead_wake _taken

end ConvergentStore.Session
