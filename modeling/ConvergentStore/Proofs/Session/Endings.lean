import ConvergentStore.Proofs.Replica.Acceptance
import ConvergentStore.Proofs.Session.Course

/-!
# How calls end

A call that has been carried on ends by its attempts and in no other way: its
message is published, or all attempts have failed (`Outcome.FromAttempts`). So
everything else that a call can answer is answered by the step that makes it,
before the first attempt (`change_ending`).
-/

namespace ConvergentStore.Session

/-- Whether a call ended by its attempts: its message was published, or all of them failed. -/
inductive Outcome.FromAttempts : Outcome → Prop
  | published (messageId : String) : FromAttempts (.published messageId)
  | unpublished (family : Family) (attempts : Binary64) (cause : PublishFault) :
      FromAttempts (.failed (.unpublished family attempts cause))

/-- Why a call fails before its first attempt. -/
inductive FailsAtOnce (session : Session) (operation : Operation) (replica : Replica) :
    Fault → Prop
  /-- The replica does not take the operation. -/
  | refused {refusal : Refusal} (declined : replica.apply operation = .error refusal) :
      FailsAtOnce session operation replica (.refused refusal)
  /-- The replica takes the operation, but no message can be prepared for it. -/
  | unprepared {next : Replica} {fault : Fault}
      (accepted : replica.apply operation = .ok next)
      (failed : session.profile.prepare operation = .error fault) :
      FailsAtOnce session operation replica fault

theorem CarriedOn.ending
    {session : Session}
    {call : Call}
    {made : Nat}
    {progress : Progress}
    {trace : Trace}
    (carried : CarriedOn session call made progress trace) :
    ∀ ending ∈ (trace ++ progress.ending call.index).finished, ending.2.FromAttempts := by
  rw [Trace.finished_append, carried.finished]
  have fate := carried.fate
  generalize trace.published = taken at fate
  intro ending among
  cases fate with
  | published messageId =>
      rw [List.mem_singleton.mp among]
      exact .published messageId
  | failed attempts cause =>
      rw [List.mem_singleton.mp among]
      exact .unpublished call.operation.family attempts cause
  | asleep due room => cases among

section

variable (session : Session)

theorem wake_ending
    (call : Call)
    (others : List Call)
    (state : State) :
    ∀ ending ∈ (session.wake call others state).2.finished, ending.2.FromAttempts := by
  rcases session.carriedOn_wake call others state with ⟨_, _, _, carried, _, told⟩
  rw [told]
  exact carried.ending

/-- Calls that a move of the clock wakes end by their attempts. -/
theorem setClock_ending
    (target : Binary64)
    (state : State) :
    ∀ ending ∈ (session.setClock target state).2.finished, ending.2.FromAttempts := by
  have fromAttempts : ∀ part ∈ [] ++ session.wakings target state,
      ∀ ending ∈ part.finished, ending.2.FromAttempts := by
    refine session.setClock_rule target
      (fun _ parts => ∀ part ∈ parts, ∀ ending ∈ part.finished, ending.2.FromAttempts)
      ?_ (fun _ _ before => before) state [] fun _ among => absurd among List.not_mem_nil
    intro state past call others _ before part among
    rcases List.mem_append.mp among with earlier | last
    · exact before part earlier
    · rw [List.mem_singleton.mp last]
      exact session.wake_ending call others state
  rw [setClock_trace]
  intro ending among
  rcases List.mem_flatMap.mp among with ⟨part, woken, ended⟩
  exact fromAttempts part woken ending ended

/-- A call that publishes ends at once if its message cannot be prepared. -/
theorem publish_ending
    (index : Nat)
    (operation : Operation)
    (state : State) :
    ∀ ending ∈ ((session.publish index operation state).2.2 ++
        (session.publish index operation state).1.ending index).finished,
      ending.2.FromAttempts ∨
        ∃ fault, ending = (index, .failed fault) ∧
          session.profile.prepare operation = .error fault := by
  cases prepared : session.profile.prepare operation with
  | error fault =>
      unfold publish
      rw [prepared]
      intro ending among
      exact .inr ⟨fault, List.mem_singleton.mp among, rfl⟩
  | ok outbound =>
      rw [(publish_eq_wake prepared index state).2]
      intro ending among
      exact .inl (session.wake_ending _ _ _ ending among)

/-- A call ends at once if its operation is refused or its message cannot be prepared. -/
theorem change_ending
    (index : Nat)
    (change : Change)
    (state : State) :
    ∀ ending ∈ ((session.change index change state).2.2 ++
        (session.change index change state).1.ending index).finished,
      ending.2.FromAttempts ∨
        ∃ fault, ending = (index, .failed fault) ∧
          session.FailsAtOnce (change.toOperation state.clock) state.replica fault := by
  cases applied : state.replica.apply (change.toOperation state.clock) with
  | error refusal =>
      unfold Session.change
      dsimp only
      rw [applied]
      intro ending among
      exact .inr ⟨_, List.mem_singleton.mp among, .refused applied⟩
  | ok next =>
      unfold Session.change
      dsimp only
      rw [applied]
      intro ending among
      rcases session.publish_ending index _ _ ending among with attempts | ⟨fault, same, failed⟩
      · exact .inl attempts
      · exact .inr ⟨fault, same, .unprepared applied failed⟩

/--
The calls that end in a step end by their attempts or are stopped, except that
the call which the step makes can fail before its first attempt.
-/
theorem step_ending
    (index : Nat)
    (step : Step)
    (state : State) :
    ∀ ending ∈ (session.step index step state).endings index,
      ending.2.FromAttempts ∨ ending.2 = .interrupted ∨
        ∃ change fault, step = .change change ∧ ending = (index, .failed fault) ∧
          session.FailsAtOnce (change.toOperation state.clock) state.replica fault := by
  intro ending among
  have moved : ∀ target,
      ending ∈ (session.setClock target state).2.inCallOrder.finished ++ [] →
        ending.2.FromAttempts := by
    intro target woken
    rw [List.append_nil] at woken
    exact session.setClock_ending target state ending (List.mem_mergeSort.mp woken)
  cases step with
  | change change =>
      rcases session.change_ending index change state ending among with
        attempts | ⟨fault, same, why⟩
      · exact .inl attempts
      · exact .inr (.inr ⟨change, fault, rfl, same, why⟩)
  | inbound message =>
      unfold Session.step at among
      dsimp only at among
      split at among <;> cases among
  | listen => cases among
  | read family key => cases among
  | filter => cases among
  | setClock millis => exact .inl (moved _ among)
  | adjustClock millis => exact .inl (moved _ among)
  | interrupt call =>
      cases call with
      | none => cases among
      | some call =>
          unfold Session.step at among
          dsimp only at among
          split at among
          · rw [List.mem_singleton.mp among]
            exact .inr (.inl rfl)
          · cases among

/--
In a run every call that ends has been stopped or ends by its attempts, except
that it can fail before its first attempt, in the step that makes it.
-/
theorem perform_ending
    (index : Nat)
    (cues : List Cue)
    (state : State) :
    ∀ ending ∈ ((session.perform index cues state).zipIdx index).flatMap
        fun entry => entry.1.endings entry.2,
      ending.2.FromAttempts ∨ ending.2 = .interrupted ∨
        ∃ before cue after change fault,
          cues = before ++ cue :: after ∧
            cue.step = .change change ∧
            ending = (index + before.length, .failed fault) ∧
            session.FailsAtOnce
              (change.toOperation (session.after index before state).clock)
              (session.after index before state).replica fault := by
  induction cues generalizing index state with
  | nil =>
      intro ending among
      exact absurd among List.not_mem_nil
  | cons cue rest ih =>
      intro ending among
      rw [perform, List.zipIdx_cons, List.flatMap_cons] at among
      rcases List.mem_append.mp among with first | others
      · rcases step_ending { session with feed := cue.feed } index cue.step state ending first with
          attempts | stopped | ⟨change, fault, made, same, why⟩
        · exact .inl attempts
        · exact .inr (.inl stopped)
        · refine .inr (.inr ⟨[], cue, rest, change, fault, rfl, made, same, ?_⟩)
          cases why with
          | refused declined => exact .refused declined
          | unprepared accepted failed => exact .unprepared accepted failed
      · rcases ih (index + 1) _ ending others with
          attempts | stopped | ⟨before, own, after, change, fault, split, made, same, why⟩
        · exact .inl attempts
        · exact .inr (.inl stopped)
        · refine .inr (.inr ⟨cue :: before, own, after, change, fault, ?_, made, ?_, ?_⟩)
          · rw [split, List.cons_append]
          · rw [same, List.length_cons, Nat.add_right_comm, Nat.add_assoc]
          · rw [after_cons]
            exact why

end

end ConvergentStore.Session
