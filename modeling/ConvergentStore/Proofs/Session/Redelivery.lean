import ConvergentStore.Proofs.Replica.Feed
import ConvergentStore.Proofs.Replica.Redelivery
import ConvergentStore.Proofs.Session.History

/-!
# Redelivery to sessions

A session takes an operation in when it accepts the change that asks for it, or
when a message that carries it is applied. From then on its replica shows a
write or an addition (`dominates_of_hasTaken`), whatever else is done with the
session. So a later message with the same operation is applied and changes
nothing, while an increment is added once more for each message that carries it
(`redelivery_absorbed`).
-/

namespace ConvergentStore

open Binary64 (largestSafe)

namespace Profile

/-- A replica shows what a message is noted to have applied to it. -/
theorem dominates_received
    (profile : Profile)
    {message : Message}
    {replica : Replica}
    (reachable : replica.Reachable)
    {messageId : String}
    {operation : Operation}
    (marked : operation.family ≠ .counter)
    (applied : .applied messageId operation ∈
      noted (message, (profile.ingest message replica).map (·.1))) :
    (profile.received message replica).Dominates operation := by
  have ingested := profile.ingested message replica
  rw [received]
  generalize profile.ingest message replica = result at ingested applied ⊢
  cases ingested with
  | ignored screened => cases applied
  | failed screened extracted => simp [noted, Except.map] at applied
  | applied screened extracted accepted =>
      cases List.mem_singleton.mp applied
      exact Replica.dominates_of_apply reachable accepted marked
  | refused screened extracted declined => simp [noted, Except.map] at applied

/-- A replica shows what a listener has noted as applied to it. -/
theorem dominates_absorbAll
    (profile : Profile)
    (feed : List Message)
    {replica : Replica}
    (reachable : replica.Reachable)
    {messageId : String}
    {operation : Operation}
    (marked : operation.family ≠ .counter)
    (applied : .applied messageId operation ∈ (profile.absorbAll feed replica).events) :
    (profile.absorbAll feed replica).replica.Dominates operation := by
  induction feed generalizing replica with
  | nil => cases applied
  | cons message rest ih =>
      cases broken : profile.breaks message with
      | true => simp [absorbAll, absorb_of_breaks broken] at applied
      | false =>
          have next := reachable.of_precedes (profile.precedes_received message replica)
          simp only [absorbAll, absorb_of_not_breaks broken, Hearing.preceded,
            List.mem_append] at applied ⊢
          rcases applied with here | later
          · refine Replica.Dominates.of_grows ?_ (next.grows (profile.precedes_absorbAll rest _))
            exact profile.dominates_received reachable marked here
          · exact ih next later

end Profile

namespace Session

/--
A step takes an operation in: it asks for a change that is accepted, or it
brings a message that is applied, or a listener notes that it has applied one.
-/
inductive Takes (session : Session) (state : State) (operation : Operation) : Step → Prop
  | change {change : Change} {next : Replica}
      (asked : change.toOperation state.clock = operation)
      (accepted : state.replica.apply operation = .ok next) :
      Takes session state operation (.change change)
  | inbound {message : Message} {next : Replica}
      (applied : session.profile.ingest message state.replica =
        .ok (.applied operation, next)) :
      Takes session state operation (.inbound message)
  | listen {messageId : String}
      (noted : .applied messageId operation ∈
        (session.profile.hear .attentive session.feed state.replica).events) :
      Takes session state operation .listen

/-- One of the steps of a session has taken an operation in. -/
def HasTaken
    (session : Session)
    (clock : Binary64)
    (cues : List Cue)
    (operation : Operation) : Prop :=
  ∃ earlier cue later, cues = earlier ++ cue :: later ∧
    Takes { session with feed := cue.feed } (session.after 0 earlier (.initial clock))
      operation cue.step

theorem dominates_of_takes
    {session : Session}
    {state : State}
    {operation : Operation}
    {step : Step}
    (reachable : state.replica.Reachable)
    (marked : operation.family ≠ .counter)
    (taken : session.Takes state operation step)
    (index : Nat) :
    (session.step index step state).state.replica.Dominates operation := by
  cases taken with
  | change asked accepted =>
      subst asked
      simp only [Session.step, Session.change, accepted, publish_replica]
      exact Replica.dominates_of_apply reachable accepted marked
  | inbound applied =>
      simp only [Session.step, applied]
      exact Replica.dominates_of_apply reachable (Profile.apply_of_ingest applied) marked
  | listen noted =>
      exact session.profile.dominates_absorbAll session.feed reachable marked noted

/-- Wherever a session stands, its replica shows the writes and additions it has taken in. -/
theorem dominates_of_hasTaken
    {session : Session}
    {clock : Binary64}
    {cues : List Cue}
    {operation : Operation}
    (taken : session.HasTaken clock cues operation)
    (marked : operation.family ≠ .counter) :
    (session.after 0 cues (.initial clock)).replica.Dominates operation := by
  rcases taken with ⟨earlier, cue, later, rfl, takes⟩
  have before := session.reachable_after earlier clock
  have shown := dominates_of_takes before marked takes (0 + earlier.length)
  have reached := before.of_precedes
    (step_precedes { session with feed := cue.feed } (0 + earlier.length) cue.step _)
  rw [after_append, after_cons]
  exact shown.of_grows (reached.grows (session.precedes_after _ later _))

/-- A message that carries an operation is answered as the replica takes the operation. -/
theorem step_inbound_of_decoded?
    {session : Session}
    {message : Message}
    {operation : Operation}
    (carried : session.profile.decoded? message = some operation)
    (index : Nat)
    (state : State) :
    session.step index (.inbound message) state =
      match state.replica.apply operation with
      | .ok replica =>
          ⟨.arrival (.ok (.applied operation)), { state with replica },
            .ofEvents [.applied message.id operation]⟩
      | .error refusal => ⟨.arrival (.error (.refused refusal)), state, .empty⟩ := by
  rcases Profile.decoded?_eq_some_iff.mp carried with ⟨screened, extracted⟩
  rw [Session.step, Profile.ingest_of_extract screened extracted]
  cases state.replica.apply operation <;> rfl

/--
Wherever a session stands, a message with a write or an addition that it has
taken in before is applied and leaves everything as it was. A message with an
increment adds the amount under its key and leaves the rest as it was, or, if
that would take the total out of the safe range, fails and leaves everything as
it was.
-/
theorem redelivery_absorbed
    (session : Session)
    (clock : Binary64)
    (cues : List Cue)
    (index : Nat)
    (message : Message) :
    let state := session.after 0 cues (.initial clock)
    let report := session.step index (.inbound message) state
    (∀ operation arrived,
      operation.family ≠ .counter →
      session.HasTaken clock cues operation →
      session.profile.decoded? message = some arrived →
      arrived.equals operation = true →
        report.answer = .arrival (.ok (.applied arrived)) ∧ report.state = state) ∧
    ∀ key amount,
      session.profile.decoded? message = some (.counterIncrement key amount) →
        let total := state.replica.counters.total key
        (total + amount.toNat ≤ largestSafe →
          report.answer = .arrival (.ok (.applied (.counterIncrement key amount))) ∧
          ∃ counters,
            report.state = { state with replica := { state.replica with counters } } ∧
            counters.read? key = some (.ofNat (total + amount.toNat)) ∧
            ∀ other, other ≠ key →
              counters.read? other = state.replica.counters.read? other) ∧
        (largestSafe < total + amount.toNat →
          report.answer = .arrival (.error (.refused (.exceeded key))) ∧
          report.state = state) := by
  intro state report
  have reachable : state.replica.Reachable := session.reachable_after cues clock
  constructor
  · intro operation arrived marked taken carried same
    have shown := (dominates_of_hasTaken taken marked).of_equals same
    have kept : state.replica.apply arrived = .ok state.replica :=
      Replica.apply_of_dominates shown (Profile.mayTravel_of_decoded? carried)
    have answered := step_inbound_of_decoded? carried index state
    rw [kept] at answered
    exact ⟨congrArg Report.answer answered, congrArg Report.state answered⟩
  · intro key amount carried total
    have count : amount.isCount = true :=
      Binary64.isCount_iff.mpr (Profile.mayTravel_of_decoded? carried)
    have answered := step_inbound_of_decoded? carried index state
    constructor
    · intro room
      rcases Replica.apply_increment reachable count room with ⟨counters, applied, raised, others⟩
      rw [applied] at answered
      exact ⟨congrArg Report.answer answered, counters, congrArg Report.state answered, raised,
        others⟩
    · intro full
      have declined := Replica.apply_counterIncrement reachable.whole count key
      rw [if_neg (Nat.not_le.mpr full)] at declined
      rw [declined] at answered
      exact ⟨congrArg Report.answer answered, congrArg Report.state answered⟩

/-- A write that comes second to one of the same time is redelivered. -/
theorem redelivery_absorbed_tie :
    let session : Session := ⟨⟨.standard, .plain, .unavailable⟩, fun _ => false, []⟩
    let first : Message :=
      ⟨"f0", 1, "peer",
        "\x7b\"LWWRegister\":\x7b\"key\":\"k\",\"value\":\"a\",\"timestamp\":5\x7d\x7d",
        [["t", "nostr-crdt"]]⟩
    let second : Message :=
      ⟨"f1", 1, "peer",
        "\x7b\"LWWRegister\":\x7b\"key\":\"k\",\"value\":\"b\",\"timestamp\":5\x7d\x7d",
        [["t", "nostr-crdt"]]⟩
    let state := session.after 0 [⟨.inbound first, []⟩, ⟨.inbound second, []⟩] (.initial 0)
    let report := session.step 2 (.inbound second) state
    report.answer = .arrival (.ok (.applied (.registerSet "k" "b" 5))) ∧
      report.state = state ∧
      state.replica.registers.read? "k" = some "a" := by
  intro session first second state report
  have carried : session.profile.decoded? second = some (.registerSet "k" "b" 5) := by
    decide +kernel
  have taken : session.HasTaken 0 [⟨.inbound first, []⟩, ⟨.inbound second, []⟩]
      (.registerSet "k" "b" 5) := by
    refine ⟨[⟨.inbound first, []⟩], ⟨.inbound second, []⟩, [], rfl, ?_⟩
    rcases Profile.decoded?_eq_some_iff.mp carried with ⟨screened, extracted⟩
    have applied := Profile.ingest_of_extract screened extracted
      (session.after 0 [⟨.inbound first, []⟩] (.initial 0)).replica
    rw [Replica.apply_registerSet _ "k" "b" (by decide +kernel)] at applied
    exact .inbound applied
  have absorbed := (session.redelivery_absorbed 0 _ 2 second).1 _ _ (by decide) taken carried
    (by decide +kernel)
  exact ⟨absorbed.1, absorbed.2, by decide +kernel⟩

end Session

end ConvergentStore
