import ConvergentStore.Proofs.Replica.Change
import ConvergentStore.Proofs.Replica.Effect
import ConvergentStore.Proofs.Session.Endings
import ConvergentStore.Proofs.Session.Exhaustion

/-!
# Outcomes of calls

What becomes of a call that changes the replica, whatever came before it and
whatever comes after. It is rejected and changes nothing; or its effect is there
before its first attempt and stays, and then the call ends by the first obstacle
on its way out: that there is no key, that the cipher fails, that all attempts
fail (`Concluded`). `change_outcomes` says so of every call in every run.
-/

namespace ConvergentStore.Session

/-! ## One call in the reports of a run -/

/-- The calls that end in the reports of a run, with how they end. -/
def allEndings (reports : List Report) : List (Nat × Outcome) :=
  reports.zipIdx.flatMap fun entry => entry.1.endings entry.2

/-- How a call ends in the reports of a run: in one way if it does, and in none else. -/
def outcomesOf (call : Nat) (reports : List Report) : List Outcome :=
  ((allEndings reports).filter (·.1 == call)).map (·.2)

/-- How many attempts a call makes in the reports of a run. -/
def attemptsIn (call : Nat) (reports : List Report) : Nat :=
  (reports.flatMap (·.trace.attempted)).countP (·.call == call)

theorem mem_outcomesOf_iff
    {call : Nat}
    {reports : List Report}
    {outcome : Outcome} :
    outcome ∈ outcomesOf call reports ↔ (call, outcome) ∈ allEndings reports := by
  simp only [outcomesOf, List.mem_map, List.mem_filter, beq_iff_eq]
  constructor
  · rintro ⟨⟨ended, _⟩, ⟨among, rfl⟩, rfl⟩
    exact among
  · intro among
    exact ⟨_, ⟨among, rfl⟩, rfl⟩

section

variable (session : Session) (cues : List Cue) (clock : Binary64)

theorem attemptsIn_perform (call : Nat) :
    attemptsIn call (session.perform 0 cues (.initial clock)) =
      (session.performance cues clock).trace.attemptsOf call := by
  rw [Trace.attemptsOf, (session.performance_follows cues clock).attempted]
  rfl

/-- No call ends twice. -/
theorem nodup_allEndings :
    ((allEndings (session.perform 0 cues (.initial clock))).map (·.1)).Nodup := by
  have books := (session.accounted_performance cues clock).books
  have ended := ((session.performance_follows cues clock).ended).map (·.1)
  have once := List.nodup_append.mp (books.standing.nodup_iff.mpr books.once)
  exact ended.nodup_iff.mp once.2.1

end

/-- A call that ends in one way ends in no other. -/
theorem outcomesOf_eq_singleton
    {reports : List Report}
    (once : ((allEndings reports).map (·.1)).Nodup)
    {call : Nat}
    {outcome : Outcome}
    (ended : (call, outcome) ∈ allEndings reports) :
    outcomesOf call reports = [outcome] := by
  rw [outcomesOf]
  generalize allEndings reports = endings at once ended
  induction endings with
  | nil => cases ended
  | cons first rest ih =>
      rw [List.map_cons, List.nodup_cons] at once
      rcases List.mem_cons.mp ended with rfl | later
      · have others : rest.filter (·.1 == call) = [] := by
          rw [List.filter_eq_nil_iff]
          intro other among same
          exact once.1 (List.mem_map.mpr ⟨other, among, beq_iff_eq.mp same⟩)
        simp [others]
      · have apart : first.1 ≠ call := by
          intro same
          exact once.1 (same ▸ List.mem_map_of_mem later)
        simpa [apart] using ih once.2 later

/-! ## One call -/

/-- What becomes of a call on its way out: how it ends, and how many attempts it makes. -/
inductive Concluded (session : Session) (replica : Replica) (operation : Operation) :
    List Outcome → Nat → Prop
  /-- The replica rejects the operation. -/
  | refused {refusal : Refusal} (rejects : replica.Rejects operation refusal) :
      Concluded session replica operation [.failed (.refused refusal)] 0
  /-- The session has no key. -/
  | keyless
      (taken : ∀ refusal, ¬ replica.Rejects operation refusal)
      (nobody : session.profile.identity = .unavailable) :
      Concluded session replica operation [.failed .keyless] 0
  /-- The cipher does not encrypt the document for the key. -/
  | unencryptable {key document : String} {cause : CipherFault}
      (taken : ∀ refusal, ¬ replica.Rejects operation refusal)
      (owner : session.profile.identity = .owner key)
      (written : operation.encode = .ok document)
      (withheld : session.profile.cipher.encrypt document key = .error cause) :
      Concluded session replica operation
        [.failed (.unencryptable operation.family cause)] 0
  /-- The message goes out, and the call sleeps, has been stopped or ends by its attempts. -/
  | sent {key document content : String} {outcomes : List Outcome} {attempts : Nat}
      (taken : ∀ refusal, ¬ replica.Rejects operation refusal)
      (owner : session.profile.identity = .owner key)
      (written : operation.encode = .ok document)
      (encrypted : session.profile.cipher.encrypt document key = .ok content)
      (tried : 1 ≤ attempts)
      (ended : outcomes = [] ∨
        ∃ outcome, outcomes = [outcome] ∧ (outcome.FromAttempts ∨ outcome = .interrupted)) :
      Concluded session replica operation outcomes attempts

section

variable
  (session : Session)
  (index : Nat)
  {change : Change}
  {state : State}

theorem step_change :
    session.step index (.change change) state =
      ⟨.call (session.change index change state).1, (session.change index change state).2.1,
        (session.change index change state).2.2⟩ := by
  unfold Session.step
  rfl

theorem change_of_refused
    {refusal : Refusal}
    (declined : state.replica.apply (change.toOperation state.clock) = .error refusal) :
    session.change index change state =
      (.outcome (.failed (.refused refusal)), state, .empty) := by
  unfold Session.change
  dsimp only
  rw [declined]

/-- A call applies its operation first and publishes it from there. -/
theorem change_of_applied
    {replica : Replica}
    (accepted : state.replica.apply (change.toOperation state.clock) = .ok replica) :
    session.change index change state =
      session.publish index (change.toOperation state.clock) { state with replica } := by
  unfold Session.change
  dsimp only
  rw [accepted]

theorem publish_of_unprepared
    {operation : Operation}
    {fault : Fault}
    (unprepared : session.profile.prepare operation = .error fault)
    (state : State) :
    session.publish index operation state = (.outcome (.failed fault), state, .empty) := by
  unfold publish
  rw [unprepared]

/-- A call whose message is prepared makes an attempt at once. -/
theorem one_le_attemptsOf_change
    {replica : Replica}
    (accepted : state.replica.apply (change.toOperation state.clock) = .ok replica)
    {outbound : Outbound}
    (prepared : session.profile.prepare (change.toOperation state.clock) = .ok outbound) :
    1 ≤ ((session.change index change state).2.2 ++
      (session.change index change state).1.ending index).attemptsOf index := by
  rw [session.change_of_applied index accepted,
    (publish_eq_wake prepared index { state with replica }).2]
  rcases session.counted_wake ⟨index, change.toOperation state.clock, outbound, 0, state.clock⟩
    state.asleep { state with replica } with ⟨made, progress, relay, carried, counted, done⟩
  dsimp only at done ⊢
  rw [done, carried.attemptsOf_append index, if_pos rfl]
  exact counted.some

end

section

variable
  (session : Session)
  {cues earlier later : List Cue}
  {change : Change}
  {feed : List Message}
  (split : cues = earlier ++ ⟨.change change, feed⟩ :: later)
  (clock : Binary64)

include split

/-- That a call is asked for and what it does at once are parts of what has happened in the end. -/
theorem performance_of_change :
    ∃ asked done,
      (session.performance cues clock).requests =
          (session.performance earlier clock).requests ++
            ⟨earlier.length, change, (session.after 0 earlier (.initial clock)).clock⟩ :: asked ∧
        (session.performance cues clock).parts =
          (session.performance earlier clock).parts ++
            ((session.change earlier.length change
                (session.after 0 earlier (.initial clock))).2.2 ++
              (session.change earlier.length change
                (session.after 0 earlier (.initial clock))).1.ending earlier.length) :: done := by
  rw [split, performance_append, List.foldl_cons]
  rcases session.foldl_follow_grows later
    ((session.performance earlier clock).follow session ⟨.change change, feed⟩) with
      ⟨asked, done, requests, parts⟩
  refine ⟨asked, done, ?_, ?_⟩
  · rw [requests, ← session.performance_next earlier clock, ← session.performance_state,
      List.append_cons]
    rfl
  · rw [parts, ← session.performance_next earlier clock, ← session.performance_state,
      List.append_cons, Course.follow, Course.advance, Session.parts, change_fed]

/-- A call that fails at once ends so and makes no attempt. -/
theorem concluded_at_once
    {fault : Fault}
    (silent : (session.change earlier.length change
      (session.after 0 earlier (.initial clock))).2.2 = .empty)
    (answer : (session.change earlier.length change
      (session.after 0 earlier (.initial clock))).1 = .outcome (.failed fault)) :
    outcomesOf earlier.length (session.perform 0 cues (.initial clock)) = [.failed fault] ∧
      attemptsIn earlier.length (session.perform 0 cues (.initial clock)) = 0 := by
  rcases session.performance_of_change split clock with ⟨_, done, _, parts⟩
  rw [silent, answer] at parts
  have follows := session.performance_follows cues clock
  constructor
  · refine outcomesOf_eq_singleton (session.nodup_allEndings _ clock) ?_
    refine follows.ended.mem_iff.mp (List.mem_flatMap.mpr ⟨.ofFinished _ (.failed fault), ?_,
      List.mem_singleton.mpr rfl⟩)
    rw [parts]
    exact List.mem_append_right _ List.mem_cons_self
  · have before := (session.accounted_performance earlier clock).attemptsOf_next
    have quiet := (session.accounted_performance cues clock).books.quiet
    rw [session.performance_next] at before
    rw [parts, List.pairwise_append] at quiet
    have after : (Trace.join done).attemptsOf earlier.length = 0 := by
      rw [Trace.attemptsOf, List.countP_eq_zero]
      intro attempt tried same
      rcases List.mem_flatMap.mp tried with ⟨part, among, within⟩
      exact List.rel_of_pairwise_cons quiet.2.1 among _ (List.mem_singleton.mpr rfl) attempt
        within (beq_iff_eq.mp same)
    rw [attemptsIn_perform, Course.trace, parts, Trace.join_append, Trace.join_cons,
      Trace.attemptsOf_append, Trace.attemptsOf_append, before, after]
    rfl

/-- A call whose message goes out sleeps, has been stopped or ends by its attempts. -/
theorem concluded_of_prepared
    {replica : Replica}
    (accepted : (session.after 0 earlier (.initial clock)).replica.apply
      (change.toOperation (session.after 0 earlier (.initial clock)).clock) = .ok replica)
    {outbound : Outbound}
    (prepared : session.profile.prepare
      (change.toOperation (session.after 0 earlier (.initial clock)).clock) = .ok outbound) :
    1 ≤ attemptsIn earlier.length (session.perform 0 cues (.initial clock)) ∧
      (outcomesOf earlier.length (session.perform 0 cues (.initial clock)) = [] ∨
        ∃ outcome,
          outcomesOf earlier.length (session.perform 0 cues (.initial clock)) = [outcome] ∧
            (outcome.FromAttempts ∨ outcome = .interrupted)) := by
  constructor
  · rcases session.performance_of_change split clock with ⟨_, done, _, parts⟩
    have some := session.one_le_attemptsOf_change earlier.length accepted prepared
    rw [attemptsIn_perform, Course.trace, parts, Trace.join_append, Trace.join_cons,
      Trace.attemptsOf_append, Trace.attemptsOf_append]
    omega
  · by_cases none : outcomesOf earlier.length (session.perform 0 cues (.initial clock)) = []
    · exact .inl none
    · rcases List.exists_mem_of_ne_nil _ none with ⟨outcome, within⟩
      have among := mem_outcomesOf_iff.mp within
      refine .inr ⟨outcome, outcomesOf_eq_singleton (session.nodup_allEndings _ clock) among, ?_⟩
      rcases session.perform_ending 0 _ _ _ among with
        attempts | stopped | ⟨before, cue, after, own, fault, found, made, same, why⟩
      · exact .inl attempts
      · exact .inr stopped
      · -- The step is that of the call, which does not fail at once.
        have number : earlier.length = before.length := by
          have numbers := congrArg Prod.fst same
          omega
        rcases List.append_inj (split.symm.trans found) number with ⟨rfl, rest⟩
        cases rest
        cases made
        cases why with
        | refused declined =>
            rw [accepted] at declined
            cases declined
        | unprepared _ failed =>
            rw [prepared] at failed
            cases failed

/-- What becomes of a call that is made in a run. -/
theorem concluded_perform :
    session.Concluded
      (session.after 0 earlier (.initial clock)).replica
      (change.toOperation (session.after 0 earlier (.initial clock)).clock)
      (outcomesOf earlier.length (session.perform 0 cues (.initial clock)))
      (attemptsIn earlier.length (session.perform 0 cues (.initial clock))) := by
  have reachable := session.reachable_after earlier clock
  cases applied : (session.after 0 earlier (.initial clock)).replica.apply
    (change.toOperation (session.after 0 earlier (.initial clock)).clock) with
  | error refusal =>
      have done := session.change_of_refused earlier.length applied
      rcases session.concluded_at_once split clock (by rw [done]) (by rw [done]) with
        ⟨ended, none⟩
      rw [ended, none]
      exact .refused ((Replica.apply_eq_error_iff_rejects reachable).mp applied)
  | ok replica =>
      have taken : ∀ refusal, ¬ (session.after 0 earlier (.initial clock)).replica.Rejects
          (change.toOperation (session.after 0 earlier (.initial clock)).clock) refusal := by
        intro refusal rejects
        rw [(Replica.apply_eq_error_iff_rejects reachable).mpr rejects] at applied
        cases applied
      cases prepared : session.profile.prepare
        (change.toOperation (session.after 0 earlier (.initial clock)).clock) with
      | error fault =>
          have done := (session.change_of_applied earlier.length applied).trans
            (session.publish_of_unprepared earlier.length prepared _)
          rcases session.concluded_at_once split clock (by rw [done]) (by rw [done]) with
            ⟨ended, none⟩
          rw [ended, none]
          cases Profile.unprepared_of_prepare_error prepared with
          | keyless nobody => exact .keyless taken nobody
          | unencodable unwritten =>
              rcases Operation.exists_encode_iff.mpr (Replica.mayTravel_of_apply applied) with
                ⟨document, written⟩
              rw [written] at unwritten
              cases unwritten
          | unencryptable owner written withheld =>
              exact .unencryptable taken owner written withheld
      | ok outbound =>
          rcases session.concluded_of_prepared split clock applied prepared with ⟨tried, ended⟩
          rcases sends_of_prepare prepared with ⟨key, document, content, owned, written, encrypted, _⟩
          exact .sent taken (Profile.identity_eq_of_publicKey owned) written encrypted tried ended

/-- A call that has not ended sleeps. -/
theorem outcomesOf_eq_nil_iff :
    outcomesOf earlier.length (session.perform 0 cues (.initial clock)) = [] ↔
      ∃ call ∈ (session.after 0 cues (.initial clock)).asleep, call.index = earlier.length := by
  rcases session.performance_of_change split clock with ⟨asked, _, requests, _⟩
  have books := (session.accounted_performance cues clock).books
  have ended := (session.performance_follows cues clock).ended
  have called : earlier.length ∈
      ((session.performance cues clock).requests).map (·.call) := by
    rw [requests]
    exact List.mem_map_of_mem (List.mem_append_right _ List.mem_cons_self)
  have apart := List.nodup_append.mp (books.standing.nodup_iff.mpr books.once)
  rw [session.performance_state] at books apart
  have stands := List.mem_append.mp (books.standing.mem_iff.mpr called)
  constructor
  · intro none
    rcases stands with sleeps | past
    · exact List.mem_map.mp sleeps
    · rcases List.mem_map.mp past with ⟨⟨number, outcome⟩, among, same⟩
      have told : (earlier.length, outcome) ∈ allEndings (session.perform 0 cues (.initial clock)) :=
        same ▸ ended.mem_iff.mp among
      rw [← mem_outcomesOf_iff, none] at told
      cases told
  · rintro ⟨call, sleeps, same⟩
    rw [List.eq_nil_iff_forall_not_mem]
    intro outcome within
    have among := ended.mem_iff.mpr (mem_outcomesOf_iff.mp within)
    exact apart.2.2 _ (List.mem_map_of_mem sleeps) _ (List.mem_map_of_mem among) same

end

/-! ## Kinds of failure -/

/-- Whether a list of outcomes is that of a call which failed in one way. -/
def FailedAs (kind : String) (outcomes : List Outcome) : Prop :=
  ∃ fault, outcomes = [.failed fault] ∧ fault.kind = kind

theorem failedAs_singleton_iff {kind : String} {fault : Fault} :
    FailedAs kind [.failed fault] ↔ fault.kind = kind := by
  constructor
  · rintro ⟨other, same, kind⟩
    cases same
    exact kind
  · intro kind
    exact ⟨fault, rfl, kind⟩

/-- A call whose message goes out fails in one way only. -/
theorem transport_of_failedAs
    {kind : String}
    {outcomes : List Outcome}
    (failed : FailedAs kind outcomes)
    (ended : outcomes = [] ∨
      ∃ outcome, outcomes = [outcome] ∧ (outcome.FromAttempts ∨ outcome = .interrupted)) :
    kind = "TransportError" := by
  rcases failed with ⟨fault, rfl, rfl⟩
  rcases ended with none | ⟨outcome, same, attempts | stopped⟩
  · cases none
  · cases same
    cases attempts
    rfl
  · cases same
    cases stopped

section

variable
  {session : Session}
  {replica : Replica}
  {operation : Operation}
  {outcomes : List Outcome}
  {attempts : Nat}
  (concluded : session.Concluded replica operation outcomes attempts)

include concluded

theorem Concluded.invalid_iff :
    FailedAs "InvalidOperation" outcomes ↔ ∃ refusal, replica.Rejects operation refusal := by
  cases concluded with
  | refused rejects => exact ⟨fun _ => ⟨_, rejects⟩, fun _ => failedAs_singleton_iff.mpr rfl⟩
  | keyless taken nobody => simp [failedAs_singleton_iff, Fault.kind, taken]
  | unencryptable taken owner written withheld =>
      simp [failedAs_singleton_iff, Fault.kind, taken]
  | sent taken owner written encrypted tried ended =>
      constructor
      · intro failed
        exact absurd (transport_of_failedAs failed ended) (by decide)
      · rintro ⟨refusal, rejects⟩
        exact absurd rejects (taken refusal)

theorem Concluded.keyless_iff :
    FailedAs "KeysNotAvailable" outcomes ↔
      (∀ refusal, ¬ replica.Rejects operation refusal) ∧
        session.profile.identity = .unavailable := by
  cases concluded with
  | refused rejects =>
      refine ⟨fun failed => ?_, fun both => absurd rejects (both.1 _)⟩
      simp [failedAs_singleton_iff, Fault.kind] at failed
  | keyless taken nobody => exact ⟨fun _ => ⟨taken, nobody⟩, fun _ => failedAs_singleton_iff.mpr rfl⟩
  | unencryptable taken owner written withheld =>
      simp [failedAs_singleton_iff, Fault.kind, owner]
  | sent taken owner written encrypted tried ended =>
      constructor
      · intro failed
        exact absurd (transport_of_failedAs failed ended) (by decide)
      · rintro ⟨_, nobody⟩
        rw [owner] at nobody
        cases nobody

theorem Concluded.serialization_iff :
    FailedAs "SerializationError" outcomes ↔
      (∀ refusal, ¬ replica.Rejects operation refusal) ∧
        ∃ key document cause,
          session.profile.identity = .owner key ∧
            operation.encode = .ok document ∧
            session.profile.cipher.encrypt document key = .error cause := by
  cases concluded with
  | refused rejects =>
      refine ⟨fun failed => ?_, fun both => absurd rejects (both.1 _)⟩
      simp [failedAs_singleton_iff, Fault.kind] at failed
  | keyless taken nobody => simp [failedAs_singleton_iff, Fault.kind, nobody]
  | unencryptable taken owner written withheld =>
      exact ⟨fun _ => ⟨taken, _, _, _, owner, written, withheld⟩,
        fun _ => failedAs_singleton_iff.mpr rfl⟩
  | sent taken owner written encrypted tried ended =>
      constructor
      · intro failed
        exact absurd (transport_of_failedAs failed ended) (by decide)
      · rintro ⟨_, key, document, cause, holder, document', withheld⟩
        rw [owner] at holder
        cases holder
        rw [written] at document'
        cases document'
        rw [encrypted] at withheld
        cases withheld

theorem Concluded.attempts_eq_zero_iff :
    attempts = 0 ↔
      FailedAs "InvalidOperation" outcomes ∨ FailedAs "KeysNotAvailable" outcomes ∨
        FailedAs "SerializationError" outcomes := by
  cases concluded with
  | refused rejects => exact ⟨fun _ => .inl (failedAs_singleton_iff.mpr rfl), fun _ => rfl⟩
  | keyless taken nobody =>
      exact ⟨fun _ => .inr (.inl (failedAs_singleton_iff.mpr rfl)), fun _ => rfl⟩
  | unencryptable taken owner written withheld =>
      exact ⟨fun _ => .inr (.inr (failedAs_singleton_iff.mpr rfl)), fun _ => rfl⟩
  | sent taken owner written encrypted tried ended =>
      constructor
      · intro none
        omega
      · rintro (failed | failed | failed) <;>
          exact absurd (transport_of_failedAs failed ended) (by decide)

/-- A call that has ended is published, was stopped or failed in one of four ways. -/
theorem Concluded.ways
    (ended : outcomes ≠ []) :
    (∃ messageId, outcomes = [.published messageId]) ∨ outcomes = [.interrupted] ∨
      FailedAs "InvalidOperation" outcomes ∨ FailedAs "KeysNotAvailable" outcomes ∨
        FailedAs "SerializationError" outcomes ∨ FailedAs "TransportError" outcomes := by
  by_cases none : attempts = 0
  · rcases concluded.attempts_eq_zero_iff.mp none with invalid | keyless | serialization
    · exact .inr (.inr (.inl invalid))
    · exact .inr (.inr (.inr (.inl keyless)))
    · exact .inr (.inr (.inr (.inr (.inl serialization))))
  · cases concluded with
    | refused rejects => exact absurd rfl none
    | keyless taken nobody => exact absurd rfl none
    | unencryptable taken owner written withheld => exact absurd rfl none
    | sent taken owner written encrypted tried way =>
        rcases way with nothing | ⟨outcome, rfl, attempts | rfl⟩
        · exact absurd nothing ended
        · cases attempts with
          | published messageId => exact .inl ⟨messageId, rfl⟩
          | unpublished family reported cause =>
              exact .inr (.inr (.inr (.inr (.inr (failedAs_singleton_iff.mpr rfl)))))
        · exact .inr (.inl rfl)

end

/-! ## Calls in runs -/

/-- Whether a step can change the replica. -/
def Step.mutates : Step → Bool
  | .change _ | .inbound _ | .listen => true
  | .read .. | .filter | .setClock _ | .adjustClock _ | .interrupt _ => false

theorem step_replica_of_not_mutates
    (session : Session)
    (index : Nat)
    {step : Step}
    (still : step.mutates = false)
    (state : State) :
    (session.step index step state).state.replica = state.replica := by
  cases step with
  | change change => cases still
  | inbound message => cases still
  | listen => cases still
  | read family key => rfl
  | filter => rfl
  | setClock millis => exact session.setClock_replica millis state
  | adjustClock millis => exact session.setClock_replica (state.clock + millis) state
  | interrupt call =>
      cases call with
      | none => rfl
      | some call =>
          unfold Session.step
          dsimp only
          split <;> rfl

theorem perform_replica_of_not_mutates
    (session : Session)
    (index : Nat)
    {cues : List Cue}
    (still : ∀ cue ∈ cues, cue.step.mutates = false)
    (state : State) :
    ∀ report ∈ session.perform index cues state, report.state.replica = state.replica := by
  induction cues generalizing index state with
  | nil => exact fun _ among => absurd among List.not_mem_nil
  | cons cue rest ih =>
      have first := step_replica_of_not_mutates { session with feed := cue.feed } index
        (still cue List.mem_cons_self) state
      intro report among
      rcases List.mem_cons.mp among with rfl | later
      · exact first
      · exact (ih (index + 1) (fun other within => still other (List.mem_cons_of_mem _ within)) _
          report later).trans first

end ConvergentStore.Session
