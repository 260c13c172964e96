import ConvergentStore.Retry.Run
import ConvergentStore.Session.State

/-!
# Publishing in a session

A call that changes the replica applies its operation at once and then attempts
to publish it. The message is made once, when the call is made. A call whose
attempt is refused goes on as its policy says, and while it waits it sleeps.
-/

namespace ConvergentStore.Session

/-! ## Attempts -/

/-- The attempts counted so far, and the trace of those made for one message. -/
structure Relay where
  attempts : Nat
  trace : Trace

/-- One attempt to publish the message of a call. -/
def attempt (session : Session) (index : Nat) (operation : Operation) (outbound : Outbound)
    (clock : Binary64) (relay : Relay) : Except PublishFault String × Relay :=
  let number := relay.attempts + 1
  if session.refuses number then
    let cause : PublishFault := ⟨"relay refused attempt " ++ Nat.repr number⟩
    (.error cause,
      ⟨number, relay.trace ++
        ⟨[], [⟨index, clock⟩], [], [.attemptFailed operation cause]⟩⟩)
  else
    let messageId := "event-" ++ Nat.repr number
    (.ok messageId,
      ⟨number, relay.trace ++
        ⟨[], [⟨index, clock⟩], [⟨index, messageId, outbound⟩],
          [.published operation messageId]⟩⟩)

/-- How a call ends when its attempts do. -/
def conclude (session : Session) (operation : Operation) :
    Except PublishFault String → Outcome
  | .ok messageId => .published messageId
  | .error cause =>
      .failed (.unpublished operation.family
        (session.profile.settings.retry.retries + 1) cause)

/-- What became of a call: it ended, or it fell asleep. -/
inductive Progress where
  | ended (outcome : Outcome)
  | asleep (call : Call)

/-- A call carried on at a time of the clock, after so many retries. -/
def proceed (session : Session) (index : Nat) (operation : Operation)
    (outbound : Outbound) (retried : Nat) (clock : Binary64) (attempts : Nat) :
    Progress × Relay :=
  match session.profile.settings.retry.burst clock
      (session.attempt index operation outbound clock) Policy.patience retried
      ⟨attempts, .empty⟩ with
  | (.ended result, relay) => (.ended (session.conclude operation result), relay)
  | (.asleep retried due, relay) =>
      (.asleep ⟨index, operation, outbound, retried, due⟩, relay)

/-- A call that falls asleep has less left than it had before. -/
theorem remaining_lt_of_proceed_asleep {session : Session} {index : Nat}
    {operation : Operation} {outbound : Outbound} {retried attempts : Nat}
    {target clock : Binary64} {call : Call} {relay : Relay}
    (sleeps : session.proceed index operation outbound retried clock attempts =
      (.asleep call, relay))
    (reached : clock.place ≤ target.place) :
    Policy.remaining target call.due call.retried < Policy.remaining target clock retried := by
  unfold proceed at sleeps
  cases burst : session.profile.settings.retry.burst clock
      (session.attempt index operation outbound clock) Policy.patience retried
      ⟨attempts, .empty⟩ with
  | mk stage after =>
      rw [burst] at sleeps
      cases stage with
      | ended result => cases sleeps
      | asleep retried due =>
          cases sleeps
          exact Policy.remaining_lt_of_burst_asleep burst reached

/-! ## Changing -/

/-- What a step answers about a call. -/
inductive CallAnswer where
  | outcome (outcome : Outcome)
  | pending (index : Nat)

/-- A call publishes the operation it has applied. -/
def publish (session : Session) (index : Nat) (operation : Operation) (state : State) :
    CallAnswer × State × Trace :=
  match session.profile.prepare operation with
  | .error fault => (.outcome (.failed fault), state, .empty)
  | .ok outbound =>
      let (progress, relay) :=
        session.proceed index operation outbound 0 state.clock state.attempts
      let state := { state with attempts := relay.attempts }
      match progress with
      | .ended outcome => (.outcome outcome, state, relay.trace)
      | .asleep call =>
          (.pending index, { state with asleep := state.asleep ++ [call] }, relay.trace)

/-- A call applies its operation and publishes it. -/
def change (session : Session) (index : Nat) (change : Change) (state : State) :
    CallAnswer × State × Trace :=
  let operation := change.toOperation state.clock
  match state.replica.apply operation with
  | .error refusal => (.outcome (.failed (.refused refusal)), state, .empty)
  | .ok replica => session.publish index operation { state with replica }

end ConvergentStore.Session
