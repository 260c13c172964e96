import ConvergentStore.Proofs.Retry.Attempts
import ConvergentStore.Proofs.Session.Clock
import ConvergentStore.Session.Step

/-!
# What a call does when it is carried on

A call that is carried on makes attempts at one time of the clock and then ends
or falls asleep again. `CarriedOn` says all that it can do, and what its trace
shows of it. A call that is made goes on as if it had been asleep and were woken
at once (`publish_eq_wake`), so that there is only one way of going on.
-/

namespace ConvergentStore.Session

/-! ## Outcomes -/

/-- The identifier that a call answers, if it has published its message. -/
def Outcome.messageId? : Outcome → Option String
  | .published messageId => some messageId
  | .failed _ => none
  | .interrupted => none

/-- The calls of a trace that ended with their message published, with what they answered. -/
def Trace.successes (trace : Trace) : List (Nat × String) :=
  trace.finished.filterMap fun ending => ending.2.messageId?.map (ending.1, ·)

/-- The messages that the relay took, as the calls that sent them and their identifiers. -/
def Trace.deliveries (trace : Trace) : List (Nat × String) :=
  trace.published.map fun publication => (publication.call, publication.messageId)

/-- How many attempts a call has made. -/
def Trace.attemptsOf (call : Nat) (trace : Trace) : Nat :=
  trace.attempted.countP (·.call == call)

theorem Trace.attemptsOf_append (call : Nat) (first second : Trace) :
    (first ++ second).attemptsOf call = first.attemptsOf call + second.attemptsOf call :=
  List.countP_append

/-! ## Carrying on -/

variable {session : Session}

/-- An attempt is recorded, and the message is published if and only if it succeeds. -/
theorem attempt_cases
    {index : Nat}
    {operation : Operation}
    {outbound : Outbound}
    {clock : Binary64}
    {relay next : Relay}
    {result : Except PublishFault String}
    (made : session.attempt index operation outbound clock relay = (result, next)) :
    next.trace.finished = relay.trace.finished ∧
      next.trace.attempted = relay.trace.attempted ++ [⟨index, clock⟩] ∧
      next.trace.published = relay.trace.published ++
        result.toOption.toList.map fun messageId => ⟨index, messageId, outbound⟩ := by
  unfold attempt at made
  dsimp only at made
  split at made <;> cases made <;> simp [Except.toOption]

/--
What a call has made of so many attempts: it has published its message and says
so, it has failed, or it sleeps, and its retries are counted.
-/
inductive Fate (session : Session) (call : Call) (made : Nat) :
    Progress → List Publication → Prop
  | published (messageId : String) :
      Fate session call made (.ended (.published messageId))
        [⟨call.index, messageId, call.outbound⟩]
  | failed (attempts : Binary64) (cause : PublishFault) :
      Fate session call made
        (.ended (.failed (.unpublished call.operation.family attempts cause))) []
  | asleep
      (due : Binary64)
      (room : session.profile.settings.retry.Bounded →
        call.retried + made < session.profile.settings.retry.allowance) :
      Fate session call made
        (.asleep { call with retried := call.retried + made, due }) []

/-- What a call does when it is carried on: some attempts, which its fate goes by. -/
structure CarriedOn
    (session : Session)
    (call : Call)
    (made : Nat)
    (progress : Progress)
    (trace : Trace) : Prop where
  finished : trace.finished = []
  attempted : trace.attempted = List.replicate made ⟨call.index, call.due⟩
  fate : Fate session call made progress trace.published
  within : session.profile.settings.retry.Bounded →
    call.retried < session.profile.settings.retry.allowance →
      call.retried + made ≤ session.profile.settings.retry.allowance

/-- Attempts of a call that have all failed so far, with room for one more. -/
structure Trying (session : Session) (call : Call) (made : Nat) (trace : Trace) : Prop where
  finished : trace.finished = []
  attempted : trace.attempted = List.replicate made ⟨call.index, call.due⟩
  published : trace.published = []
  room : session.profile.settings.retry.Bounded →
    call.retried < session.profile.settings.retry.allowance →
      call.retried + made < session.profile.settings.retry.allowance

variable {call : Call} {made : Nat} {relay next : Relay}

theorem Trying.attempted_once_more
    (trying : Trying session call made relay.trace)
    {result : Except PublishFault String}
    (attempted : session.attempt call.index call.operation call.outbound call.due relay =
      (result, next)) :
    next.trace.finished = [] ∧
      next.trace.attempted = List.replicate (made + 1) ⟨call.index, call.due⟩ ∧
      next.trace.published =
        result.toOption.toList.map fun messageId => ⟨call.index, messageId, call.outbound⟩ := by
  rcases attempt_cases attempted with ⟨finished, another, published⟩
  rw [trying.finished] at finished
  rw [trying.attempted, ← List.replicate_succ'] at another
  rw [trying.published, List.nil_append] at published
  exact ⟨finished, another, published⟩

theorem Trying.ended
    (trying : Trying session call made relay.trace)
    {result : Except PublishFault String}
    (attempted : session.attempt call.index call.operation call.outbound call.due relay =
      (result, next)) :
    CarriedOn session call (made + 1) (.ended (session.conclude call.operation result))
      next.trace := by
  rcases trying.attempted_once_more attempted with ⟨finished, another, published⟩
  refine ⟨finished, another, ?_, fun bounded room => trying.room bounded room⟩
  rw [published]
  cases result with
  | ok messageId => exact .published messageId
  | error cause => exact .failed _ cause

theorem Trying.failed
    (trying : Trying session call made relay.trace)
    {retried : Nat}
    (counted : retried = call.retried + made)
    {cause : PublishFault}
    (attempted : session.attempt call.index call.operation call.outbound call.due relay =
      (.error cause, next))
    (goesOn : session.profile.settings.retry.pause retried call.due ≠ .giveUp) :
    Trying session call (made + 1) next.trace ∧
      (session.profile.settings.retry.Bounded →
        call.retried + (made + 1) < session.profile.settings.retry.allowance) := by
  rcases trying.attempted_once_more attempted with ⟨finished, another, published⟩
  have room : session.profile.settings.retry.Bounded →
      call.retried + (made + 1) < session.profile.settings.retry.allowance := by
    intro bounded
    have less := Policy.lt_allowance_of_allows bounded
      (Policy.allows_of_pause_ne_giveUp goesOn)
    omega
  exact ⟨⟨finished, another, published, fun bounded _ => room bounded⟩, room⟩

/-- How a call goes on from where its run stands. -/
def progressOf (session : Session) (call : Call) : Stage PublishFault String → Progress
  | .ended result => .ended (session.conclude call.operation result)
  | .asleep retried due => .asleep { call with retried, due }

theorem proceed_eq (session : Session) (call : Call) (attempts : Nat) :
    session.proceed call.index call.operation call.outbound call.retried call.due attempts =
      ((session.profile.settings.retry.burst call.due
        (session.attempt call.index call.operation call.outbound call.due) Policy.patience
        call.retried ⟨attempts, .empty⟩).map (session.progressOf call) id) := by
  unfold proceed
  split <;> next ran => rw [ran]; rfl

theorem carriedOn_proceed (session : Session) (call : Call) (attempts : Nat) :
    ∃ made, CarriedOn session call made
      (session.proceed call.index call.operation call.outbound call.retried call.due attempts).1
      (session.proceed call.index call.operation call.outbound call.retried call.due
        attempts).2.trace := by
  rw [proceed_eq]
  -- Before each attempt the trace shows the ones made so far, all of them failed.
  refine Policy.burst_rule
    (fun retried (relay : Relay) => ∃ made, retried = call.retried + made ∧
      Trying session call made relay.trace)
    (fun stage (relay : Relay) => ∃ made,
      CarriedOn session call made (session.progressOf call stage) relay.trace)
    0 ?ends ?sleeps ?repeats Policy.patience (Nat.zero_le _) ?holds
  case ends =>
    rintro _ relay result next ⟨made, rfl, trying⟩ attempted _
    exact ⟨made + 1, trying.ended attempted⟩
  case sleeps =>
    rintro _ relay cause next due ⟨made, rfl, trying⟩ attempted pause
    rcases trying.failed rfl attempted (by simp [pause]) with ⟨tried, room⟩
    refine ⟨made + 1, tried.finished, tried.attempted, ?_, fun bounded _ => (room bounded).le⟩
    rw [tried.published]
    exact .asleep due room
  case repeats =>
    rintro _ relay cause next ⟨made, rfl, trying⟩ attempted pause
    exact ⟨made + 1, rfl, (trying.failed rfl attempted (by simp [pause])).1⟩
  case holds => exact ⟨0, rfl, rfl, rfl, rfl, fun _ room => room⟩

/-! ## Waking -/

/-- The call that is left asleep, if one is. -/
def Progress.rest : Progress → List Call
  | .ended _ => []
  | .asleep call => [call]

/-- The trace of the end of a call, if it ended. -/
def Progress.ending (index : Nat) : Progress → Trace
  | .ended outcome => .ofFinished index outcome
  | .asleep _ => .empty

/-- A call that is woken is carried on at its due time. -/
theorem wake_eq
    (call : Call)
    {others : List Call}
    {state : State}
    {progress : Progress}
    (proceeded : session.proceed call.index call.operation call.outbound call.retried call.due
      state.attempts = (progress, relay)) :
    session.wake call others state =
      ({ state with
          clock := call.due
          attempts := relay.attempts
          asleep := others ++ progress.rest },
        relay.trace ++ progress.ending call.index) := by
  unfold wake
  rw [proceeded]
  cases progress with
  | ended outcome =>
      dsimp only [Progress.rest, Progress.ending]
      rw [List.append_nil]
  | asleep later =>
      dsimp only [Progress.rest, Progress.ending]
      rw [Trace.append_empty]

/-- What a call that is woken does, and what is left asleep and told of it. -/
theorem carriedOn_wake
    (session : Session)
    (call : Call)
    (others : List Call)
    (state : State) :
    ∃ made progress trace,
      CarriedOn session call made progress trace ∧
        (session.wake call others state).1.asleep = others ++ progress.rest ∧
        (session.wake call others state).2 = trace ++ progress.ending call.index := by
  rcases session.carriedOn_proceed call state.attempts with ⟨made, carried⟩
  rcases proceeded : session.proceed call.index call.operation call.outbound call.retried
    call.due state.attempts with ⟨progress, relay⟩
  rw [proceeded] at carried
  rw [wake_eq call proceeded]
  exact ⟨made, progress, relay.trace, carried, rfl, rfl⟩

namespace CarriedOn

variable {progress : Progress} {trace : Trace}

/-- The call that is carried on is left asleep or ends. -/
theorem rest_append_ended (carried : CarriedOn session call made progress trace) :
    progress.rest.map (·.index) ++
        (trace ++ progress.ending call.index).finished.map (·.1) = [call.index] := by
  rw [Trace.finished_append, carried.finished]
  have fate := carried.fate
  generalize trace.published = taken at fate
  cases fate <;> rfl

/-- A call that is left asleep holds the same message, and its retries are counted. -/
theorem later
    (carried : CarriedOn session call made progress trace)
    {asleep : Call}
    (left : asleep ∈ progress.rest) :
    asleep.index = call.index ∧
      asleep.outbound = call.outbound ∧
      asleep.retried = call.retried + made ∧
      (session.profile.settings.retry.Bounded →
        asleep.retried < session.profile.settings.retry.allowance) := by
  have fate := carried.fate
  generalize trace.published = taken at fate
  cases fate with
  | published messageId => cases left
  | failed attempts cause => cases left
  | asleep due room =>
      have same : asleep = { call with retried := call.retried + made, due } :=
        List.mem_singleton.mp left
      rw [same]
      exact ⟨rfl, rfl, rfl, room⟩

/-- Its message is published if and only if it ends well. -/
theorem paired (carried : CarriedOn session call made progress trace) :
    (trace ++ progress.ending call.index).deliveries =
      (trace ++ progress.ending call.index).successes := by
  rw [Trace.deliveries, Trace.successes, Trace.finished_append, Trace.published_append,
    carried.finished]
  have fate := carried.fate
  generalize trace.published = taken at fate ⊢
  cases fate <;> rfl

/-- Nobody else makes an attempt. -/
theorem attempted_append
    (carried : CarriedOn session call made progress trace) :
    (trace ++ progress.ending call.index).attempted =
      List.replicate made ⟨call.index, call.due⟩ := by
  rw [Trace.attempted_append, carried.attempted]
  cases progress <;> exact List.append_nil _

theorem attemptsOf_append
    (carried : CarriedOn session call made progress trace)
    (index : Nat) :
    (trace ++ progress.ending call.index).attemptsOf index =
      if call.index = index then made else 0 := by
  rw [Trace.attemptsOf, carried.attempted_append, List.countP_replicate]
  simp only [beq_iff_eq]

theorem published_append (carried : CarriedOn session call made progress trace) :
    ∀ publication ∈ (trace ++ progress.ending call.index).published,
      publication.call = call.index ∧ publication.outbound = call.outbound := by
  rw [Trace.published_append]
  have fate := carried.fate
  generalize trace.published = taken at fate ⊢
  intro publication among
  cases fate with
  | published messageId =>
      have last : publication = ⟨call.index, messageId, call.outbound⟩ :=
        List.mem_singleton.mp among
      rw [last]
      exact ⟨rfl, rfl⟩
  | failed attempts cause => cases among
  | asleep due room => cases among

end CarriedOn

/-! ## Calling -/

/-- The trace of the end of a call, if an answer tells of it. -/
def CallAnswer.ending (index : Nat) : CallAnswer → Trace
  | .outcome result => .ofFinished index result
  | .pending _ => .empty

/-- A call whose message is prepared goes on as one that was asleep and is woken at once. -/
theorem publish_eq_wake
    {operation : Operation}
    {outbound : Outbound}
    (prepared : session.profile.prepare operation = .ok outbound)
    (index : Nat)
    (state : State) :
    (session.publish index operation state).2.1 =
        (session.wake ⟨index, operation, outbound, 0, state.clock⟩ state.asleep state).1 ∧
      (session.publish index operation state).2.2 ++
          (session.publish index operation state).1.ending index =
        (session.wake ⟨index, operation, outbound, 0, state.clock⟩ state.asleep state).2 := by
  unfold publish
  rw [prepared]
  dsimp only
  rcases proceeded : session.proceed index operation outbound 0 state.clock state.attempts with
    ⟨progress, relay⟩
  rw [wake_eq ⟨index, operation, outbound, 0, state.clock⟩ proceeded]
  cases progress with
  | ended outcome =>
      dsimp only [Progress.rest, Progress.ending]
      rw [List.append_nil]
      exact ⟨rfl, rfl⟩
  | asleep later => exact ⟨rfl, rfl⟩

/-! ## Deliveries -/

section

variable (session : Session) (feed : List Message) (index : Nat)

theorem proceed_fed
    (operation : Operation)
    (outbound : Outbound)
    (retried : Nat)
    (clock : Binary64)
    (attempts : Nat) :
    proceed { session with feed } index operation outbound retried clock attempts =
      session.proceed index operation outbound retried clock attempts := by
  have attempted : attempt { session with feed } index operation outbound clock =
      session.attempt index operation outbound clock := rfl
  have concluded : conclude { session with feed } operation = session.conclude operation := by
    funext result
    cases result <;> rfl
  unfold proceed
  dsimp only
  rw [attempted]
  split
  · rw [concluded]
  · rfl

theorem publish_fed
    (operation : Operation)
    (state : State) :
    publish { session with feed } index operation state =
      session.publish index operation state := by
  unfold publish
  cases session.profile.prepare operation with
  | error fault => rfl
  | ok outbound =>
      dsimp only
      rw [proceed_fed]

/-- What a call does when it is made does not depend on what is delivered to the session. -/
theorem change_fed
    (change : Change)
    (state : State) :
    Session.change { session with feed } index change state =
      session.change index change state := by
  unfold Session.change
  dsimp only
  cases state.replica.apply (change.toOperation state.clock) with
  | error refusal => rfl
  | ok replica => exact session.publish_fed feed index _ _

end

end ConvergentStore.Session
