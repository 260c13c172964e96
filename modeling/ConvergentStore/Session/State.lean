import ConvergentStore.Replica.Exchange

/-!
# Sessions

One replica that publishes over a relay, under a clock that is set from
outside. The relay refuses the attempts it is told to refuse and records the
others. This module holds what a session is, where it stands and what is
recorded about a part of it.
-/

namespace ConvergentStore

/-- What a session is set up with. -/
structure Session where
  profile : Profile
  /-- Whether the relay refuses an attempt, counted from one over the whole session. -/
  refuses : Nat → Bool
  /-- The messages that a subscription delivers before it ends. -/
  feed : List Message

namespace Session

/-! ## State -/

/-- A call that sleeps until its next attempt is due. -/
structure Call where
  /-- The number of the step that made the call. -/
  index : Nat
  operation : Operation
  outbound : Outbound
  /-- How many retries have been made or are due. -/
  retried : Nat
  due : Binary64
  deriving DecidableEq

/-- How a call ended. -/
inductive Outcome where
  | published (messageId : String)
  | failed (fault : Fault)
  | interrupted

/-- Where a session stands. -/
structure State where
  replica : Replica
  clock : Binary64
  /-- How many attempts to publish have been made. -/
  attempts : Nat
  /-- The sleeping calls, in the order in which they fell asleep. -/
  asleep : List Call

/-- A session that begins at a time of the clock. -/
def State.initial (clock : Binary64) : State := ⟨.empty, clock, 0, []⟩

/-- An attempt to publish the message of a call, with the time of the clock it saw. -/
structure Attempt where
  call : Nat
  clock : Binary64
  deriving DecidableEq

/-- A message that the relay took, with the call that sent it and the identifier it was given. -/
structure Publication where
  call : Nat
  messageId : String
  outbound : Outbound
  deriving DecidableEq

/-- What happened in a part of a session. -/
structure Trace where
  /-- The calls that ended after they had slept. -/
  finished : List (Nat × Outcome)
  /-- The attempts that were made. -/
  attempted : List Attempt
  /-- The messages that the relay took. -/
  published : List Publication
  /-- What was noted. -/
  events : List Event

namespace Trace

/-- The trace of a part in which nothing happened. -/
def empty : Trace := ⟨[], [], [], []⟩

/-- The trace of one part followed by another. -/
def append (first second : Trace) : Trace :=
  ⟨first.finished ++ second.finished, first.attempted ++ second.attempted,
    first.published ++ second.published, first.events ++ second.events⟩

instance : Append Trace := ⟨append⟩

/-- The trace in which only events were noted. -/
def ofEvents (events : List Event) : Trace := { empty with events }

/-- The trace in which only a call ended. -/
def ofFinished (index : Nat) (outcome : Outcome) : Trace :=
  { empty with finished := [(index, outcome)] }

/-- A trace with the calls that ended in the order in which they were made. -/
def inCallOrder (trace : Trace) : Trace :=
  { trace with finished := trace.finished.mergeSort fun left right => left.1 ≤ right.1 }

end Trace

end Session

end ConvergentStore
