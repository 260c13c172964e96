import ConvergentStore.Proofs.Replica.Ingestion
import ConvergentStore.Proofs.Session.Clock

/-!
# Histories of sessions

Publishing and the clock leave the replica of a session alone. A change and a
message commit operations to it, so each step of a session leads its replica on
by operations (`step_precedes`), and every replica that a session ever has
precedes those that it has later (`pairwise_precedes`).
-/

namespace ConvergentStore

namespace Profile

theorem precedes_received
    (profile : Profile)
    (message : Message)
    (replica : Replica) :
    replica.Precedes (profile.received message replica) :=
  ⟨_, profile.received_eq message replica⟩

theorem precedes_absorbAll
    (profile : Profile)
    (messages : List Message)
    (replica : Replica) :
    replica.Precedes (profile.absorbAll messages replica).replica :=
  ⟨_, (profile.absorbAll_eq messages replica).trans (profile.receivedAll_eq _ replica)⟩

end Profile

namespace Session

/-! ## Steps -/

section

variable (session : Session)

theorem publish_replica
    (index : Nat)
    (operation : Operation)
    (state : State) :
    (session.publish index operation state).2.1.replica = state.replica := by
  unfold publish
  split
  · rfl
  · dsimp only
    split <;> rfl

theorem wake_replica
    (call : Call)
    (others : List Call)
    (state : State) :
    (session.wake call others state).1.replica = state.replica := by
  unfold wake
  dsimp only
  split <;> rfl

theorem setClock_replica
    (target : Binary64)
    (state : State) :
    (session.setClock target state).1.replica = state.replica := by
  induction state using setClock.induct session target with
  | case1 state none => rw [session.setClock_of_none target none]
  | case2 state call others taken woken final trace _ ih =>
      rw [session.setClock_of_some target taken]
      exact ih.trans (session.wake_replica call others state)

theorem change_precedes
    (index : Nat)
    (change : Change)
    (state : State) :
    state.replica.Precedes (session.change index change state).2.1.replica := by
  unfold Session.change
  dsimp only
  cases applied : state.replica.apply (change.toOperation state.clock) with
  | error refusal => exact .refl _
  | ok next =>
      rw [publish_replica]
      exact Replica.commit_of_apply_eq_ok applied ▸ Replica.precedes_commit _ _

/-- A step leads the replica of a session on by operations. -/
theorem step_precedes
    (index : Nat)
    (step : Step)
    (state : State) :
    state.replica.Precedes (session.step index step state).state.replica := by
  cases step with
  | change change => exact session.change_precedes index change state
  | inbound message =>
      rw [Profile.step_inbound_replica]
      exact session.profile.precedes_received message state.replica
  | listen => exact session.profile.precedes_absorbAll session.feed state.replica
  | read family key => exact .refl _
  | filter => exact .refl _
  | setClock millis =>
      show state.replica.Precedes (session.setClock millis state).1.replica
      rw [setClock_replica]
      exact .refl _
  | adjustClock millis =>
      show state.replica.Precedes (session.setClock (state.clock + millis) state).1.replica
      rw [setClock_replica]
      exact .refl _
  | interrupt call =>
      cases call with
      | none => exact .refl _
      | some call =>
          unfold Session.step
          dsimp only
          split <;> exact .refl _

end

/-! ## Runs -/

/-- A step, with the messages that a subscription delivers if the step opens one. -/
structure Cue where
  step : Step
  feed : List Message

/-- Steps from a number on, each with what is delivered then, and a report for each. -/
def perform (session : Session) (index : Nat) : List Cue → State → List Report
  | [], _ => []
  | cue :: rest, state =>
      let report := { session with feed := cue.feed }.step index cue.step state
      report :: session.perform (index + 1) rest report.state

/-- A run is a performance in which every subscription delivers the same messages. -/
theorem runFrom_eq_perform
    (session : Session)
    (index : Nat)
    (steps : List Step)
    (state : State) :
    session.runFrom index steps state =
      session.perform index (steps.map fun step => ⟨step, session.feed⟩) state := by
  induction steps generalizing index state with
  | nil => rfl
  | cons step rest ih =>
      rw [runFrom, List.map_cons, perform, ih]

/-- Of the replicas that a session has, each one precedes those after it. -/
theorem pairwise_precedes
    (session : Session)
    (index : Nat)
    (cues : List Cue)
    (state : State) :
    (state.replica :: (session.perform index cues state).map
      (·.state.replica)).Pairwise Replica.Precedes := by
  induction cues generalizing index state with
  | nil => exact List.pairwise_singleton _ _
  | cons cue rest ih =>
      rw [perform, List.map_cons]
      have later := ih (index + 1) ({ session with feed := cue.feed }.step index cue.step state).state
      have next := step_precedes { session with feed := cue.feed } index cue.step state
      refine List.pairwise_cons.mpr ⟨?_, later⟩
      intro replica member
      rcases List.mem_cons.mp member with rfl | after
      · exact next
      · exact next.trans (List.rel_of_pairwise_cons later after)

/-- Where a session stands after steps from a number on. -/
def after (session : Session) (index : Nat) (cues : List Cue) (state : State) : State :=
  ((session.perform index cues state).map (·.state)).getLastD state

theorem after_cons
    (session : Session)
    (index : Nat)
    (cue : Cue)
    (rest : List Cue)
    (state : State) :
    session.after index (cue :: rest) state =
      session.after (index + 1) rest
        ({ session with feed := cue.feed }.step index cue.step state).state := by
  rw [after, perform, List.map_cons, List.getLastD_cons]
  rfl

theorem after_append
    (session : Session)
    (index : Nat)
    (earlier later : List Cue)
    (state : State) :
    session.after index (earlier ++ later) state =
      session.after (index + earlier.length) later (session.after index earlier state) := by
  induction earlier generalizing index state with
  | nil => rfl
  | cons cue rest ih =>
      rw [List.cons_append, after_cons, ih, after_cons, List.length_cons, Nat.add_right_comm,
        Nat.add_assoc]

theorem perform_append
    (session : Session)
    (index : Nat)
    (earlier later : List Cue)
    (state : State) :
    session.perform index (earlier ++ later) state =
      session.perform index earlier state ++
        session.perform (index + earlier.length) later (session.after index earlier state) := by
  induction earlier generalizing index state with
  | nil => rfl
  | cons cue rest ih =>
      rw [List.cons_append, perform, ih, after_cons, perform, List.length_cons,
        Nat.add_right_comm, Nat.add_assoc]
      rfl

theorem precedes_after
    (session : Session)
    (index : Nat)
    (cues : List Cue)
    (state : State) :
    state.replica.Precedes (session.after index cues state).replica := by
  induction cues generalizing index state with
  | nil => exact .refl _
  | cons cue rest ih =>
      rw [after_cons]
      have next := step_precedes { session with feed := cue.feed } index cue.step state
      exact next.trans (ih (index + 1) _)

/-- Wherever a session stands, its replica is reachable. -/
theorem reachable_after
    (session : Session)
    (cues : List Cue)
    (clock : Binary64) :
    (session.after 0 cues (.initial clock)).replica.Reachable :=
  session.precedes_after 0 cues (.initial clock)

/-- Every replica that a session ever has is reachable. -/
theorem perform_reachable
    (session : Session)
    (cues : List Cue)
    (clock : Binary64) :
    ∀ report ∈ session.perform 0 cues (.initial clock), report.state.replica.Reachable := by
  intro report member
  exact List.rel_of_pairwise_cons (session.pairwise_precedes 0 cues (.initial clock))
    (List.mem_map_of_mem member)

end Session

end ConvergentStore
