import ConvergentStore.Proofs.Replica.Acceptance
import ConvergentStore.Proofs.Session.Accounts

/-!
# What a call tells of its attempts

A call that ends in vain tells how often it has attempted to publish its message
and why the last attempt failed. The reason is right. The number is the one that
the policy allows, and the call has made so many attempts unless one of them was
cut short (`exhaustion_reported`). `Audited` is the invariant: it keeps for each
call that ended in vain where its last attempt stands among all attempts, and
for each sleeping call that none of its attempts was cut short.
-/

namespace ConvergentStore.Session

/-! ## Attempts -/

/-- The failure of the attempt with a number, counted from one over the whole session. -/
def refusalOf (number : Nat) : PublishFault :=
  ⟨"relay refused attempt " ++ Nat.repr number⟩

variable {session : Session}

/-- Attempts are numbered in turn, and one that fails was refused under its number. -/
theorem attempt_numbered
    {index : Nat}
    {operation : Operation}
    {outbound : Outbound}
    {clock : Binary64}
    {relay next : Relay}
    {result : Except PublishFault String}
    (made : session.attempt index operation outbound clock relay = (result, next)) :
    next.attempts = relay.attempts + 1 ∧
      ∀ cause, result = .error cause →
        session.refuses next.attempts = true ∧ cause = refusalOf next.attempts := by
  unfold attempt at made
  dsimp only at made
  split at made
  · next refused =>
      cases made
      refine ⟨rfl, ?_⟩
      rintro cause ⟨⟩
      exact ⟨refused, rfl⟩
  · cases made
    exact ⟨rfl, nofun⟩

/--
How a call gives up: its last attempt, which had a number and saw a time, was
refused, and its policy allows no other after so many attempts of the call.
-/
structure GaveUp
    (session : Session)
    (number : Nat)
    (time : Binary64)
    (made : Nat)
    (reported : Binary64)
    (cause : PublishFault) : Prop where
  refused : session.refuses number = true
  cause : cause = refusalOf number
  reported : reported = session.profile.settings.retry.retries + 1
  ended : session.profile.settings.retry.pause (made - 1) time = .giveUp ∨
    Policy.patience ≤ made - 1

/-- How the attempts of a call that is carried on are counted. -/
structure Counted
    (session : Session)
    (call : Call)
    (attempts made : Nat)
    (progress : Progress)
    (relay : Relay) : Prop where
  total : relay.attempts = attempts + made
  some : 1 ≤ made
  attempted : relay.trace.attempted = List.replicate made ⟨call.index, call.due⟩
  /-- An attempt that another one follows was not cut short. -/
  uncut : 1 < made ∨ (∃ later, progress = .asleep later) →
    ¬ session.profile.settings.retry.CutsShort call.due
  gaveUp : ∀ family reported cause,
    progress = .ended (.failed (.unpublished family reported cause)) →
      session.GaveUp relay.attempts call.due (call.retried + made) reported cause

theorem counted_proceed (session : Session) (call : Call) (attempts : Nat) :
    ∃ made, session.Counted call attempts made
      (session.proceed call.index call.operation call.outbound call.retried call.due attempts).1
      (session.proceed call.index call.operation call.outbound call.retried call.due
        attempts).2 := by
  rw [proceed_eq]
  -- Before each attempt those made so far are counted, and none of them was cut short.
  refine Policy.burst_rule
    (fun retried (relay : Relay) => ∃ made, retried = call.retried + made ∧
      relay.attempts = attempts + made ∧
        relay.trace.attempted = List.replicate made ⟨call.index, call.due⟩ ∧
          (0 < made → ¬ session.profile.settings.retry.CutsShort call.due))
    (fun stage (relay : Relay) => ∃ made,
      session.Counted call attempts made (session.progressOf call stage) relay)
    Policy.patience ?ends ?sleeps ?repeats Policy.patience (Nat.le_add_left _ _) ?holds
  case ends =>
    rintro _ relay result next ⟨made, rfl, total, attempted, uncut⟩ another settled
    rcases attempt_numbered another with ⟨number, refused⟩
    rcases attempt_cases another with ⟨_, further, _⟩
    rw [attempted, ← List.replicate_succ'] at further
    refine ⟨made + 1, by omega, by omega, further, ?_, ?_⟩
    · rintro (more | ⟨later, asleep⟩)
      · exact uncut (by omega)
      · cases asleep
    · intro family reported cause ended
      cases result with
      | ok messageId => cases ended
      | error failure =>
          cases ended
          rcases refused cause rfl with ⟨refused, same⟩
          exact ⟨refused, same, rfl, settled cause rfl⟩
  case sleeps =>
    rintro _ relay cause next due ⟨made, rfl, total, attempted, _⟩ another pause
    have number := (attempt_numbered another).1
    rcases attempt_cases another with ⟨_, further, _⟩
    rw [attempted, ← List.replicate_succ'] at further
    have whole : ¬ session.profile.settings.retry.CutsShort call.due :=
      Policy.not_cutsShort_of_pause pause nofun
    exact ⟨made + 1, by omega, by omega, further, fun _ => whole, nofun⟩
  case repeats =>
    rintro _ relay cause next ⟨made, rfl, total, attempted, _⟩ another pause
    have number := (attempt_numbered another).1
    rcases attempt_cases another with ⟨_, further, _⟩
    rw [attempted, ← List.replicate_succ'] at further
    have whole : ¬ session.profile.settings.retry.CutsShort call.due :=
      Policy.not_cutsShort_of_pause pause nofun
    exact ⟨made + 1, rfl, by omega, further, fun _ => whole⟩
  case holds => exact ⟨0, rfl, rfl, rfl, nofun⟩

/-- What a call that is woken does, how its attempts are counted, and where the session is left. -/
theorem counted_wake
    (session : Session)
    (call : Call)
    (others : List Call)
    (state : State) :
    ∃ made progress relay,
      CarriedOn session call made progress relay.trace ∧
        session.Counted call state.attempts made progress relay ∧
          session.wake call others state =
            ({ state with
                clock := call.due
                attempts := relay.attempts
                asleep := others ++ progress.rest },
              relay.trace ++ progress.ending call.index) := by
  rcases session.carriedOn_proceed call state.attempts with ⟨made, carried⟩
  rcases session.counted_proceed call state.attempts with ⟨number, counted⟩
  rcases proceeded : session.proceed call.index call.operation call.outbound call.retried
    call.due state.attempts with ⟨progress, relay⟩
  rw [proceeded] at carried counted
  have same : made = number := by
    have lengths := congrArg List.length (carried.attempted.symm.trans counted.attempted)
    rwa [List.length_replicate, List.length_replicate] at lengths
  rw [← same] at counted
  exact ⟨made, progress, relay, carried, counted, wake_eq call proceeded⟩

/-! ## Audits -/

/-- How the attempts of a call that ended in vain stand among all attempts. -/
structure Exhausted
    (session : Session)
    (attempted : List Attempt)
    (call : Nat)
    (reported : Binary64)
    (cause : PublishFault)
    (earlier : List Attempt)
    (last : Attempt)
    (later : List Attempt) : Prop where
  stands : attempted = earlier ++ last :: later
  own : last.call = call
  quiet : ∀ attempt ∈ later, attempt.call ≠ call
  uncut : ∀ attempt ∈ earlier, attempt.call = call →
    ¬ session.profile.settings.retry.CutsShort attempt.clock
  gaveUp : session.GaveUp (earlier.length + 1) last.clock
    (attempted.countP (·.call == call)) reported cause

/-- Attempts of other calls make no difference to a call that has ended. -/
theorem Exhausted.append
    {attempted : List Attempt}
    {call : Nat}
    {reported : Binary64}
    {cause : PublishFault}
    {earlier : List Attempt}
    {last : Attempt}
    {later : List Attempt}
    (exhausted : session.Exhausted attempted call reported cause earlier last later)
    {more : List Attempt}
    (others : ∀ attempt ∈ more, attempt.call ≠ call) :
    session.Exhausted (attempted ++ more) call reported cause earlier last (later ++ more) where
  stands := by
    rw [exhausted.stands, List.append_assoc]
    rfl
  own := exhausted.own
  quiet := by
    intro attempt among
    rcases List.mem_append.mp among with before | after
    · exact exhausted.quiet attempt before
    · exact others attempt after
  uncut := exhausted.uncut
  gaveUp := by
    have none : more.countP (·.call == call) = 0 := by
      rw [List.countP_eq_zero]
      intro attempt among same
      exact others attempt among (beq_iff_eq.mp same)
    rw [List.countP_append, none]
    exact exhausted.gaveUp

/-- The attempts of a session, as its calls tell of them. -/
structure Audited
    (session : Session)
    (attempts : Nat)
    (asleep : List Call)
    (parts : List Trace) : Prop where
  total : attempts = (Trace.join parts).attempted.length
  /-- No attempt of a sleeping call was cut short. -/
  waiting : ∀ call ∈ asleep, ∀ attempt ∈ (Trace.join parts).attempted,
    attempt.call = call.index → ¬ session.profile.settings.retry.CutsShort attempt.clock
  exhausted : ∀ ending ∈ (Trace.join parts).finished, ∀ family reported cause,
    ending.2 = .failed (.unpublished family reported cause) →
      ∃ earlier last later, session.Exhausted (Trace.join parts).attempted ending.1 reported
        cause earlier last later

namespace Audited

variable {attempts : Nat} {asleep : List Call} {parts : List Trace}

theorem start (session : Session) : Audited session 0 [] [] where
  total := rfl
  waiting := fun _ among => absurd among List.not_mem_nil
  exhausted := fun _ among => absurd among List.not_mem_nil

theorem perm
    (audited : Audited session attempts asleep parts)
    {calls : List Call}
    (same : asleep.Perm calls) :
    Audited session attempts calls parts :=
  { audited with waiting := fun call among => audited.waiting call (same.mem_iff.mpr among) }

/-- A part passes in which no attempt is made, and no call ends in vain. -/
theorem rest
    (audited : Audited session attempts asleep parts)
    {left : List Call}
    {part : Trace}
    (remaining : left ⊆ asleep)
    (idle : part.attempted = [])
    (settled : ∀ ending ∈ part.finished, ∀ family reported cause,
      ending.2 ≠ .failed (.unpublished family reported cause)) :
    Audited session attempts left (parts ++ [part]) := by
  have same : (Trace.join (parts ++ [part])).attempted = (Trace.join parts).attempted := by
    rw [Trace.join_append, Trace.join_singleton, Trace.attempted_append, idle, List.append_nil]
  refine ⟨?_, ?_, ?_⟩
  · rw [same]
    exact audited.total
  · intro call among
    rw [same]
    exact audited.waiting call (remaining among)
  · intro ending among family reported cause vain
    rw [same]
    rw [Trace.join_append, Trace.join_singleton, Trace.finished_append] at among
    rcases List.mem_append.mp among with past | last
    · exact audited.exhausted ending past family reported cause vain
    · exact absurd vain (settled ending last family reported cause)

/-- A call is carried on, and no other call does anything. -/
theorem carry
    {next : Nat}
    {requests : List Request}
    {call : Call}
    {others : List Call}
    (accounted : Accounted session next requests (call :: others) parts)
    (audited : Audited session attempts (call :: others) parts)
    {made : Nat}
    {progress : Progress}
    {relay : Relay}
    (carried : CarriedOn session call made progress relay.trace)
    (counted : session.Counted call attempts made progress relay) :
    Audited session relay.attempts (others ++ progress.rest)
      (parts ++ [relay.trace ++ progress.ending call.index]) := by
  have attempted : (Trace.join (parts ++ [relay.trace ++ progress.ending call.index])).attempted =
      (Trace.join parts).attempted ++ List.replicate made ⟨call.index, call.due⟩ := by
    rw [Trace.join_append, Trace.join_singleton, Trace.attempted_append,
      carried.attempted_append]
  have total := audited.total
  refine ⟨?total, ?waiting, ?exhausted⟩
  case total =>
    rw [attempted, List.length_append, List.length_replicate, ← total, counted.total]
  case waiting =>
    intro other among attempt tried same
    rw [attempted] at tried
    rcases List.mem_append.mp among with left | last
    · rcases List.mem_append.mp tried with past | recent
      · exact audited.waiting other (List.mem_cons_of_mem _ left) attempt past same
      · rw [List.eq_of_mem_replicate recent] at same
        exact absurd same (accounted.apart left)
    · rcases List.mem_append.mp tried with past | recent
      · rw [(carried.later last).1] at same
        exact audited.waiting call List.mem_cons_self attempt past same
      · have asleep : ∃ later, progress = .asleep later := by
          cases progress with
          | ended outcome => cases last
          | asleep later => exact ⟨later, rfl⟩
        rw [List.eq_of_mem_replicate recent]
        exact counted.uncut (.inr asleep)
  case exhausted =>
    intro ending among family reported cause vain
    rw [Trace.join_append, Trace.join_singleton, Trace.finished_append] at among
    rw [attempted]
    rcases List.mem_append.mp among with past | last
    · rcases audited.exhausted ending past family reported cause vain with
        ⟨earlier, tried, later, exhausted⟩
      refine ⟨earlier, tried, _, exhausted.append ?_⟩
      intro attempt recent same
      rw [List.eq_of_mem_replicate recent] at same
      rcases List.mem_flatMap.mp past with ⟨part, within, ended⟩
      exact accounted.books.not_awaiting within ended (same ▸ List.mem_cons_self)
    · rw [Trace.finished_append, carried.finished, List.nil_append] at last
      cases progress with
      | asleep later => cases last
      | ended outcome =>
          have same : ending = (call.index, outcome) := List.mem_singleton.mp last
          rw [same] at vain ⊢
          obtain rfl : outcome = .failed (.unpublished family reported cause) := vain
          rcases Nat.exists_eq_succ_of_ne_zero (Nat.one_le_iff_ne_zero.mp counted.some) with
            ⟨before, rfl⟩
          refine ⟨(Trace.join parts).attempted ++ List.replicate before ⟨call.index, call.due⟩,
            ⟨call.index, call.due⟩, [], ?stands, rfl, ?quiet, ?uncut, ?gaveUp⟩
          case stands =>
            rw [List.replicate_succ', List.append_assoc]
          case quiet => exact fun _ none => absurd none List.not_mem_nil
          case uncut =>
            intro attempt tried own
            rcases List.mem_append.mp tried with past | recent
            · exact audited.waiting call List.mem_cons_self attempt past own
            · have some := (List.mem_replicate.mp recent).1
              rw [List.eq_of_mem_replicate recent]
              exact counted.uncut (.inl (by omega))
          case gaveUp =>
            have retried : (Trace.join parts).attempted.countP (·.call == call.index) =
                call.retried := accounted.counted call List.mem_cons_self
            have number : relay.attempts =
                ((Trace.join parts).attempted ++
                  List.replicate before (⟨call.index, call.due⟩ : Attempt)).length + 1 := by
              rw [List.length_append, List.length_replicate, ← total, counted.total]
              omega
            rw [List.countP_append, retried, List.countP_replicate, if_pos (beq_self_eq_true _),
              ← number]
            exact counted.gaveUp family reported cause rfl

/-- A sleeping call is woken. -/
theorem wake
    {next : Nat}
    {requests : List Request}
    {state : State}
    (accounted : Accounted session next requests asleep parts)
    (audited : Audited session state.attempts asleep parts)
    {call : Call}
    {others : List Call}
    (woken : asleep.Perm (call :: others)) :
    Audited session (session.wake call others state).1.attempts
      (session.wake call others state).1.asleep (parts ++ [(session.wake call others state).2]) := by
  rcases session.counted_wake call others state with ⟨_, _, _, carried, counted, done⟩
  rw [done]
  exact (audited.perm woken).carry (accounted.perm woken) carried counted

/-- The clock is moved. -/
theorem setClock
    {next : Nat}
    {requests : List Request}
    {state : State}
    (accounted : Accounted session next requests state.asleep parts)
    (audited : Audited session state.attempts state.asleep parts)
    (target : Binary64) :
    Audited session (session.setClock target state).1.attempts
      (session.setClock target state).1.asleep (parts ++ session.wakings target state) := by
  have both := session.setClock_rule target
    (fun state parts => Accounted session next requests state.asleep parts ∧
      Audited session state.attempts state.asleep parts)
    (fun state past call others taken held =>
      ⟨held.1.wake (takeDue_perm taken) state, held.2.wake held.1 (takeDue_perm taken)⟩)
    (fun _ _ held => held) state parts ⟨accounted, audited⟩
  exact both.2

/-- A call is made. -/
theorem change
    {next : Nat}
    {requests : List Request}
    {state : State}
    (accounted : Accounted session next requests state.asleep parts)
    (audited : Audited session state.attempts state.asleep parts)
    (change : Change) :
    Audited session (session.change next change state).2.1.attempts
      (session.change next change state).2.1.asleep
      (parts ++ [(session.change next change state).2.2 ++
        (session.change next change state).1.ending next]) := by
  have declines : ∀ fault,
      (∀ family reported cause, fault ≠ .unpublished family reported cause) →
        Audited session state.attempts state.asleep
          (parts ++ [.ofFinished next (.failed fault)]) := by
    intro fault settled
    refine audited.rest (List.Subset.refl _) rfl ?_
    intro ending among family reported cause vain
    rw [List.mem_singleton.mp among] at vain
    cases vain
    exact settled family reported cause rfl
  unfold Session.change
  dsimp only
  cases state.replica.apply (change.toOperation state.clock) with
  | error refusal => exact declines _ nofun
  | ok replica =>
      cases prepared : session.profile.prepare (change.toOperation state.clock) with
      | error fault =>
          dsimp only
          unfold publish
          rw [prepared]
          refine declines fault ?_
          rintro family reported cause rfl
          cases Profile.unprepared_of_prepare_error prepared
      | ok outbound =>
          rcases publish_eq_wake prepared next { state with replica } with ⟨left, done⟩
          dsimp only at left done ⊢
          rw [left, done]
          have asked := accounted.ask ⟨next, change, state.clock⟩ rfl prepared state.clock
          have fresh : Audited session ({ state with replica } : State).attempts
              (⟨next, change.toOperation state.clock, outbound, 0, state.clock⟩ ::
                state.asleep) parts := by
            refine { audited with waiting := ?_ }
            intro call among attempt tried same
            rcases List.mem_cons.mp among with rfl | older
            · exact absurd same (accounted.books.attempting attempt tried).ne
            · exact audited.waiting call older attempt tried same
          exact fresh.wake asked (.refl _)

end Audited

/-! ## Courses -/

/-- What the calls of a course tell of its attempts. -/
def Course.Audited (session : Session) (course : Course) : Prop :=
  Session.Audited session course.state.attempts course.state.asleep course.parts

theorem audited_advance_of_still
    {course : Course}
    (audited : course.Audited session)
    {step : Step}
    {part : Trace}
    (alone : session.parts course.next step course.state = [part])
    (counted : (session.step course.next step course.state).state.attempts =
      course.state.attempts)
    (left : (session.step course.next step course.state).state.asleep = course.state.asleep)
    (still : part.finished = [])
    (idle : part.attempted = []) :
    (course.advance session step).Audited session := by
  unfold Course.Audited Course.advance
  dsimp only
  rw [alone, counted, left]
  refine Session.Audited.rest audited (List.Subset.refl _) idle ?_
  intro ending among
  rw [still] at among
  exact absurd among List.not_mem_nil

theorem audited_advance
    {course : Course}
    (accounted : course.Accounted session)
    (audited : course.Audited session)
    (step : Step) :
    (course.advance session step).Audited session := by
  cases step with
  | change change => exact Session.Audited.change accounted audited change
  | inbound message =>
      refine audited_advance_of_still audited rfl ?_ ?_ ?_ ?_ <;>
        · simp only [Session.step]
          split <;> rfl
  | listen => exact audited_advance_of_still audited rfl rfl rfl rfl rfl
  | read family key => exact audited_advance_of_still audited rfl rfl rfl rfl rfl
  | filter => exact audited_advance_of_still audited rfl rfl rfl rfl rfl
  | setClock millis => exact Session.Audited.setClock accounted audited millis
  | adjustClock millis =>
      exact Session.Audited.setClock accounted audited (course.state.clock + millis)
  | interrupt call =>
      cases call with
      | none => exact audited_advance_of_still audited rfl rfl rfl rfl rfl
      | some call =>
          unfold Course.Audited Course.advance
          dsimp only [parts, Session.step]
          split
          · refine Session.Audited.rest audited (List.filter_subset_self _) rfl ?_
            intro ending among family reported cause vain
            rw [List.mem_singleton.mp among] at vain
            cases vain
          · exact Session.Audited.rest audited (List.Subset.refl _) rfl
              fun _ among => absurd among List.not_mem_nil

/-- What a session is told of its attempts does not depend on what is delivered to it. -/
theorem Course.Audited.fed
    {course : Course}
    (audited : course.Audited session)
    (feed : List Message) :
    course.Audited { session with feed } where
  total := audited.total
  waiting := audited.waiting
  exhausted := by
    intro ending among family reported cause vain
    rcases audited.exhausted ending among family reported cause vain with
      ⟨earlier, last, later, exhausted⟩
    have gaveUp := exhausted.gaveUp
    exact ⟨earlier, last, later,
      { stands := exhausted.stands
        own := exhausted.own
        quiet := exhausted.quiet
        uncut := exhausted.uncut
        gaveUp := ⟨gaveUp.refused, gaveUp.cause, gaveUp.reported, gaveUp.ended⟩ }⟩

/-- The attempts of a session are as its calls tell of them. -/
theorem audited_performance
    (session : Session)
    (cues : List Cue)
    (clock : Binary64) :
    (session.performance cues clock).Audited session := by
  induction cues using List.reverseRecOn with
  | nil => exact .start session
  | append_singleton cues cue ih =>
      have accounted := session.accounted_performance cues clock
      rw [performance_concat]
      exact (audited_advance (accounted.fed cue.feed) (ih.fed cue.feed) cue.step).fed session.feed

/-! ## Reports -/

/-- What a call that ended in vain tells: a number of attempts, and why the last one failed. -/
def Outcome.vain? : Outcome → Option (Binary64 × PublishFault)
  | .failed (.unpublished _ reported cause) => some (reported, cause)
  | _ => none

theorem Outcome.vain?_eq_some_iff
    {outcome : Outcome}
    {reported : Binary64}
    {cause : PublishFault} :
    outcome.vain? = some (reported, cause) ↔
      ∃ family, outcome = .failed (.unpublished family reported cause) := by
  constructor
  · intro tells
    unfold vain? at tells
    split at tells
    · next family attempts failure =>
        cases tells
        exact ⟨family, rfl⟩
    · cases tells
  · rintro ⟨family, rfl⟩
    rfl

/-- What the calls that end in vain tell in the reports of a session. -/
def vainReports (reports : List Report) : List (Nat × Binary64 × PublishFault) :=
  (reports.zipIdx.flatMap fun entry => entry.1.endings entry.2).filterMap
    fun ending => ending.2.vain?.map (ending.1, ·)

theorem mem_vainReports_iff
    {reports : List Report}
    {call : Nat}
    {reported : Binary64}
    {cause : PublishFault} :
    (call, reported, cause) ∈ vainReports reports ↔
      ∃ family, (call, .failed (.unpublished family reported cause)) ∈
        reports.zipIdx.flatMap fun entry => entry.1.endings entry.2 := by
  rw [vainReports, List.mem_filterMap]
  constructor
  · rintro ⟨⟨ended, outcome⟩, among, told⟩
    rcases Option.map_eq_some_iff.mp told with ⟨told, vain, same⟩
    cases same
    rcases Outcome.vain?_eq_some_iff.mp vain with ⟨family, rfl⟩
    exact ⟨family, among⟩
  · rintro ⟨family, among⟩
    exact ⟨_, among, rfl⟩

/--
Every call that ends in vain, in a session with a bounded policy, tells the
failure of its last attempt. It tells the number of attempts that the policy
allows. The call has made so many, or its last attempt was cut short before; no
other attempt of it was.
-/
theorem exhaustion_reported
    {session : Session}
    (limited : session.profile.settings.retry.maxAttempts.le (.ofNat (2 ^ 53)) = true)
    (cues : List Cue)
    (clock : Binary64) :
    let policy := session.profile.settings.retry
    let reports := session.perform 0 cues (.initial clock)
    let attempted := reports.flatMap (·.trace.attempted)
    ∀ call reported cause, (call, reported, cause) ∈ vainReports reports →
      let made := attempted.countP (·.call == call)
      ∃ earlier last later,
        attempted = earlier ++ last :: later ∧
          last.call = call ∧
          (∀ attempt ∈ later, attempt.call ≠ call) ∧
          session.refuses (earlier.length + 1) = true ∧
          cause = refusalOf (earlier.length + 1) ∧
          reported = .ofNat policy.allowance ∧
          1 ≤ made ∧ made ≤ policy.allowance ∧
          (reported = .ofNat made ↔ made = policy.allowance) ∧
          (made < policy.allowance → policy.CutsShort last.clock) ∧
          ∀ attempt ∈ earlier, attempt.call = call → ¬ policy.CutsShort attempt.clock := by
  intro policy reports attempted call reported cause vain made
  have number : policy.maxAttempts.isNaN = false := (Binary64.le_iff.mp limited).1
  have most := (Policy.retries_eq number limited).1
  have follows := session.performance_follows cues clock
  rcases mem_vainReports_iff.mp vain with ⟨family, among⟩
  rcases (session.audited_performance cues clock).exhausted _ (follows.ended.mem_iff.mpr among)
    family reported cause rfl with ⟨earlier, last, later, exhausted⟩
  have bound := (session.accounted_performance cues clock).limited (.inr limited) call
  have attempts : (Trace.join (session.performance cues clock).parts).attempted = attempted :=
    follows.attempted
  rw [attempts] at exhausted
  rw [Trace.attemptsOf, attempts] at bound
  have tells : reported = .ofNat policy.allowance :=
    exhausted.gaveUp.reported.trans (Policy.retries_add_one number limited)
  have some : 1 ≤ made := by
    refine List.countP_pos_iff.mpr ⟨last, ?_, beq_iff_eq.mpr exhausted.own⟩
    rw [exhausted.stands]
    exact List.mem_append_right _ List.mem_cons_self
  refine ⟨earlier, last, later, exhausted.stands, exhausted.own, exhausted.quiet,
    exhausted.gaveUp.refused, exhausted.gaveUp.cause, tells, some, bound, ?exact, ?short,
    exhausted.uncut⟩
  case exact =>
    rw [tells]
    constructor
    · intro same
      have values := congrArg Binary64.toNat same
      rw [Binary64.toNat_ofNat most, Binary64.toNat_ofNat (bound.trans most)] at values
      exact values.symm
    · intro same
      rw [same]
  case short =>
    intro fewer
    rcases Policy.spent_or_cutsShort number limited exhausted.gaveUp.ended with spent | short
    · have least : policy.allowance ≤ made - 1 + 1 := spent
      omega
    · exact short

/-- A call whose three attempts follow one another at once tells of three. -/
theorem exhaustion_reported_thrice :
    let session : Session :=
      ⟨⟨{ Settings.standard with retry := ⟨3, 0⟩ }, .plain, .owner "alice"⟩, fun _ => true, []⟩
    let reports := session.perform 0 [⟨.change (.increment "k" 1), []⟩] (.initial 0)
    let attempted := reports.flatMap (·.trace.attempted)
    attempted = [⟨0, 0⟩, ⟨0, 0⟩, ⟨0, 0⟩] ∧
      vainReports reports = [(0, 3, ⟨"relay refused attempt 3"⟩)] ∧
      (3 : Binary64) = .ofNat session.profile.settings.retry.allowance := by
  intro session reports attempted
  have made : attempted = [⟨0, 0⟩, ⟨0, 0⟩, ⟨0, 0⟩] := by decide +kernel
  have told : vainReports reports = [(0, 3, ⟨"relay refused attempt 3"⟩)] := by decide +kernel
  have limited : session.profile.settings.retry.maxAttempts.le (.ofNat (2 ^ 53)) = true := by
    decide +kernel
  rcases exhaustion_reported limited _ 0 0 3 ⟨"relay refused attempt 3"⟩
    (told ▸ List.mem_singleton.mpr rfl) with ⟨_, _, _, _, _, _, _, _, tells, _⟩
  exact ⟨made, told, tells⟩

/-- A call whose policy waits for ever tells of three attempts, although it has made one. -/
theorem exhaustion_misreported :
    let session : Session :=
      ⟨⟨{ Settings.standard with retry := ⟨3, .unbounded⟩ }, .plain, .owner "alice"⟩,
        fun _ => true, []⟩
    let reports := session.perform 0 [⟨.change (.increment "k" 1), []⟩] (.initial 0)
    let attempted := reports.flatMap (·.trace.attempted)
    vainReports reports = [(0, 3, ⟨"relay refused attempt 1"⟩)] ∧
      attempted = [⟨0, 0⟩] ∧
      (3 : Binary64) ≠ .ofNat (attempted.countP (·.call == 0)) := by
  intro session reports attempted
  have made : attempted = [⟨0, 0⟩] := by decide +kernel
  refine ⟨by decide +kernel, made, ?_⟩
  rw [made]
  decide +kernel

end ConvergentStore.Session
