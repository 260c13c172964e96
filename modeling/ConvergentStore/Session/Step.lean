import ConvergentStore.Session.Clock

/-!
# Steps of a session

What a user does with a session, step by step, and what each step answers. A
call is known by the number of the step that made it.
-/

namespace ConvergentStore.Session

/-- What a user does with a session. -/
inductive Step where
  | change (change : Change)
  | inbound (message : Message)
  | listen
  | read (family : Family) (key : String)
  | filter
  | setClock (millis : Binary64)
  | adjustClock (millis : Binary64)
  /-- To stop the sleeping call with a number, or with no number that a call can have. -/
  | interrupt (call : Option Nat)

/-- What a step answers. -/
inductive Answer where
  | call (answer : CallAnswer)
  | arrival (result : Except Fault Arrival)
  | reading (reading : Replica.Reading)
  | filter (filter : Filter)
  | done
  | interrupted (wasPending : Bool)

/-- What a step answered, where the session stands after it, and what happened in it. -/
structure Report where
  answer : Answer
  state : State
  trace : Trace

/-- One step, with its number. -/
def step (session : Session) (index : Nat) (step : Step) (state : State) : Report :=
  match step with
  | .change change =>
      let (answer, state, trace) := session.change index change state
      ⟨.call answer, state, trace⟩
  | .inbound message =>
      match session.profile.ingest message state.replica with
      | .ok (arrival, replica) =>
          ⟨.arrival (.ok arrival), { state with replica },
            .ofEvents (arrival.events message.id)⟩
      | .error fault => ⟨.arrival (.error fault), state, .empty⟩
  | .listen =>
      let hearing := session.profile.hear .attentive session.feed state.replica
      ⟨.done, { state with replica := hearing.replica },
        .ofEvents (.listening :: hearing.events)⟩
  | .read family key => ⟨.reading (state.replica.read family key), state, .empty⟩
  | .filter => ⟨.filter session.profile.filter, state, .empty⟩
  | .setClock millis =>
      let (state, trace) := session.setClock millis state
      ⟨.done, state, trace.inCallOrder⟩
  | .adjustClock millis =>
      let (state, trace) := session.setClock (state.clock + millis) state
      ⟨.done, state, trace.inCallOrder⟩
  | .interrupt none => ⟨.interrupted false, state, .empty⟩
  | .interrupt (some call) =>
      if state.asleep.any (·.index == call) then
        ⟨.interrupted true,
          { state with asleep := state.asleep.filter (·.index != call) },
          .ofFinished call .interrupted⟩
      else ⟨.interrupted false, state, .empty⟩

/-- Steps from a number on, with a report for each. -/
def runFrom (session : Session) (index : Nat) : List Step → State → List Report
  | [], _ => []
  | step :: rest, state =>
      let report := session.step index step state
      report :: session.runFrom (index + 1) rest report.state

/-- Steps from the beginning, with a report for each. -/
def run (session : Session) (steps : List Step) (clock : Binary64) : List Report :=
  session.runFrom 0 steps (.initial clock)

end ConvergentStore.Session
