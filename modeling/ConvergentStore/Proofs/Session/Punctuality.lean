import ConvergentStore.Proofs.Retry.Spacing
import ConvergentStore.Proofs.Session.Moves
import ConvergentStore.Proofs.Session.Outcomes

/-!
# When calls make their attempts

In a session whose clock shows safe integers and whose delay is a count, the
attempts of a call are one delay apart from the time at which the call was made
(`timely_of_attempted`), whatever the other calls do and however the clock is
moved. `Punctual` is the invariant: it keeps the times of the attempts that were
made, and of those for which calls sleep. No call is left asleep that is due
(`rests_after`).
-/

namespace ConvergentStore.Session

/-! ## Times -/

/-- The attempts of a call, in turn. -/
def Trace.attemptsBy (call : Nat) (trace : Trace) : List Attempt :=
  trace.attempted.filter (·.call == call)

theorem Trace.attemptsBy_append (call : Nat) (first second : Trace) :
    (first ++ second).attemptsBy call = first.attemptsBy call ++ second.attemptsBy call :=
  List.filter_append _ _

theorem Trace.length_attemptsBy (call : Nat) (trace : Trace) :
    (trace.attemptsBy call).length = trace.attemptsOf call :=
  List.countP_eq_length_filter.symm

/-- The milliseconds between two attempts of a call, if they are a count. -/
def spacing (session : Session) : Nat :=
  session.profile.settings.retry.delay.toNat

/-- Whether a time is that of the attempt of a call after so many retries, all of them in time. -/
def Timely (session : Session) (request : Request) (retried : Nat) (time : Binary64) : Prop :=
  ∃ start, request.clock.toInt? = some start ∧
    time.toInt? = some (start + retried * session.spacing)

/-- Whether a time is beyond all safe ones. -/
def Beyond (time : Binary64) : Prop :=
  ∃ n, time.toInt? = some n ∧ 2 ^ 53 ≤ n

theorem Beyond.not_le
    {time target : Binary64}
    (far : Beyond time)
    (safe : target.isSafeInteger = true) :
    ¬ time.le target = true := by
  rcases far with ⟨n, whole, above⟩
  rcases Binary64.isSafeInteger_iff.mp safe with ⟨limit, bound, _, below⟩
  rw [Binary64.le_iff_of_toInt? whole bound]
  omega

variable {session : Session}

/-- A timely attempt that is reached at a safe time is at a safe time. -/
theorem Timely.safe
    {request : Request}
    {retried : Nat}
    {time target : Binary64}
    (timely : session.Timely request retried time)
    (asked : request.clock.isSafeInteger = true)
    (safe : target.isSafeInteger = true)
    (reached : time.le target = true) :
    time.isSafeInteger = true := by
  rcases timely with ⟨start, begun, whole⟩
  rcases Binary64.isSafeInteger_iff.mp safe with ⟨limit, bound, _, below⟩
  rcases Binary64.isSafeInteger_iff.mp asked with ⟨start', begun', above, _⟩
  obtain rfl : start' = start := Option.some.inj (begun'.symm.trans begun)
  rw [Binary64.le_iff_of_toInt? whole bound] at reached
  have later : 0 ≤ (retried : Int) * session.spacing := by positivity
  exact Binary64.isSafeInteger_iff.mpr ⟨_, whole, by omega, by omega⟩

/-- Attempts without a delay between them are all at one time. -/
theorem Timely.crowded
    {request : Request}
    {retried : Nat}
    {time : Binary64}
    (timely : session.Timely request retried time)
    (none : session.spacing = 0)
    (later : Nat) :
    session.Timely request later time := by
  rcases timely with ⟨start, begun, whole⟩
  rw [none] at whole
  refine ⟨start, begun, ?_⟩
  rw [none]
  simpa using whole

/-- The attempt after a timely one is timely one delay later. -/
theorem Timely.next
    {request : Request}
    {retried : Nat}
    {time due : Binary64}
    (timely : session.Timely request retried time)
    (later : ∀ n, time.toInt? = some n → due.toInt? = some (n + session.spacing)) :
    session.Timely request (retried + 1) due := by
  rcases timely with ⟨start, begun, whole⟩
  refine ⟨start, begun, (later _ whole).trans ?_⟩
  push_cast
  congr 1
  ring

/-! ## Carrying on -/

/-- How the attempts of a call that is carried on lie in time. -/
structure Spaced
    (session : Session)
    (call : Call)
    (made : Nat)
    (progress : Progress)
    (trace : Trace) : Prop where
  attempted : trace.attempted = List.replicate made ⟨call.index, call.due⟩
  tried : 1 ≤ made
  /-- Attempts at one time have no delay between them. -/
  crowded : 1 < made → session.spacing = 0
  later : ∀ next, progress = .asleep next →
    (∀ n, call.due.toInt? = some n → next.due.toInt? = some (n + session.spacing)) ∨
      Beyond next.due
  advances : ∀ next, progress = .asleep next → ¬ next.due.le call.due = true

theorem spaced_proceed
    (count : session.profile.settings.retry.delay.isCount = true)
    {call : Call}
    (safe : call.due.isSafeInteger = true)
    (attempts : Nat) :
    ∃ made, session.Spaced call made
      (session.proceed call.index call.operation call.outbound call.retried call.due attempts).1
      (session.proceed call.index call.operation call.outbound call.retried call.due
        attempts).2.trace := by
  rcases Binary64.isSafeInteger_iff.mp safe with ⟨n, whole, lower, upper⟩
  rw [proceed_eq]
  -- An attempt that another one follows at once has no delay after it.
  refine Policy.burst_rule
    (fun _ (relay : Relay) => ∃ made,
      relay.trace.attempted = List.replicate made ⟨call.index, call.due⟩ ∧
        (0 < made → session.spacing = 0))
    (fun stage (relay : Relay) => ∃ made,
      session.Spaced call made (session.progressOf call stage) relay.trace)
    0 ?ends ?sleeps ?repeats Policy.patience (Nat.zero_le _) ?holds
  case ends =>
    rintro _ relay result next ⟨made, attempted, crowded⟩ another _
    rcases attempt_cases another with ⟨_, further, _⟩
    rw [attempted, ← List.replicate_succ'] at further
    refine ⟨made + 1, further, by omega, fun more => crowded (by omega), ?_, ?_⟩ <;>
      · intro later asleep
        cases asleep
  case sleeps =>
    rintro _ relay cause next due ⟨made, attempted, crowded⟩ another pause
    rcases attempt_cases another with ⟨_, further, _⟩
    rw [attempted, ← List.replicate_succ'] at further
    rcases Policy.toInt?_of_pause_sleep count whole lower upper pause with
      ⟨m, integer, later, exact⟩
    refine ⟨made + 1, further, by omega, fun more => crowded (by omega), ?_, ?_⟩
    · rintro _ ⟨⟩
      rcases exact with rfl | above
      · left
        intro n' whole'
        obtain rfl : n' = n := Option.some.inj (whole'.symm.trans whole)
        exact integer
      · exact .inr ⟨m, integer, above⟩
    · rintro _ ⟨⟩
      rw [Binary64.le_iff_of_toInt? integer whole]
      exact Int.not_le.mpr later
  case repeats =>
    rintro _ relay cause next ⟨made, attempted, _⟩ another pause
    rcases attempt_cases another with ⟨_, further, _⟩
    rw [attempted, ← List.replicate_succ'] at further
    exact ⟨made + 1, further, fun _ =>
      Policy.toNat_delay_of_pause_again count whole lower upper pause⟩
  case holds => exact ⟨0, rfl, nofun⟩

/-- What a call that is woken does, and how its attempts lie in time. -/
theorem spaced_wake
    (count : session.profile.settings.retry.delay.isCount = true)
    {call : Call}
    (safe : call.due.isSafeInteger = true)
    (others : List Call)
    (state : State) :
    ∃ made progress trace,
      CarriedOn session call made progress trace ∧
        session.Spaced call made progress trace ∧
          (session.wake call others state).1.asleep = others ++ progress.rest ∧
            (session.wake call others state).2 = trace ++ progress.ending call.index := by
  rcases session.carriedOn_proceed call state.attempts with ⟨made, carried⟩
  rcases spaced_proceed count safe state.attempts with ⟨number, spaced⟩
  rcases proceeded : session.proceed call.index call.operation call.outbound call.retried
    call.due state.attempts with ⟨progress, relay⟩
  rw [proceeded] at carried spaced
  obtain rfl : made = number :=
    List.replicate_left_inj.mp (carried.attempted.symm.trans spaced.attempted)
  rw [wake_eq call proceeded]
  exact ⟨made, progress, relay.trace, carried, spaced, rfl, rfl⟩

/-! ## Punctuality -/

/-- The times at which the calls that were asked for make their attempts. -/
structure Punctual
    (session : Session)
    (requests : List Request)
    (asleep : List Call)
    (parts : List Trace) : Prop where
  whole : ∀ request ∈ requests, request.clock.isSafeInteger = true
  made : ∀ request ∈ requests, ∀ retried attempt,
    ((Trace.join parts).attemptsBy request.call)[retried]? = some attempt →
      session.Timely request retried attempt.clock
  /-- A call sleeps until its next attempt is in time, or until no safe time. -/
  waiting : ∀ request ∈ requests, ∀ call ∈ asleep, call.index = request.call →
    session.Timely request call.retried call.due ∨ Beyond call.due

namespace Punctual

variable {next : Nat} {requests : List Request} {asleep : List Call} {parts : List Trace}

theorem start (session : Session) : Punctual session [] [] [] where
  whole := fun _ among => absurd among List.not_mem_nil
  made := fun _ among => absurd among List.not_mem_nil
  waiting := fun _ among => absurd among List.not_mem_nil

theorem perm
    (punctual : Punctual session requests asleep parts)
    {calls : List Call}
    (same : asleep.Perm calls) :
    Punctual session requests calls parts :=
  { punctual with
    waiting := fun request asked call among =>
      punctual.waiting request asked call (same.mem_iff.mpr among) }

/-- A part passes in which no attempt is made. -/
theorem rest
    (punctual : Punctual session requests asleep parts)
    {left : List Call}
    {part : Trace}
    (remaining : left ⊆ asleep)
    (idle : part.attempted = []) :
    Punctual session requests left (parts ++ [part]) where
  whole := punctual.whole
  made := by
    intro request asked
    have none : part.attemptsBy request.call = [] := by rw [Trace.attemptsBy, idle]; rfl
    rw [Trace.join_append, Trace.join_singleton, Trace.attemptsBy_append, none, List.append_nil]
    exact punctual.made request asked
  waiting := fun request asked call among =>
    punctual.waiting request asked call (remaining among)

/-- A call is asked for. -/
theorem ask
    (accounted : Accounted session next requests asleep parts)
    (punctual : Punctual session requests asleep parts)
    {request : Request}
    (number : request.call = next)
    (safe : request.clock.isSafeInteger = true) :
    Punctual session (requests ++ [request]) asleep parts where
  whole := by
    intro asked among
    rcases List.mem_append.mp among with earlier | last
    · exact punctual.whole asked earlier
    · rw [List.mem_singleton.mp last]
      exact safe
  made := by
    intro asked among retried attempt tried
    rcases List.mem_append.mp among with earlier | last
    · exact punctual.made asked earlier retried attempt tried
    · have none : ((Trace.join parts).attemptsBy asked.call).length = 0 := by
        rw [Trace.length_attemptsBy, List.mem_singleton.mp last, number]
        exact accounted.attemptsOf_next
      rw [List.eq_nil_of_length_eq_zero none] at tried
      cases tried
  waiting := by
    intro asked among call sleeps same
    rcases List.mem_append.mp among with earlier | last
    · exact punctual.waiting asked earlier call sleeps same
    · rw [List.mem_singleton.mp last, number] at same
      exact absurd same (accounted.books.lt_of_awaiting (List.mem_map_of_mem sleeps)).ne

/-- The call that was asked for last is about to make its first attempt. -/
theorem enter
    (accounted : Accounted session next requests asleep parts)
    {request : Request}
    (punctual : Punctual session (requests ++ [request]) asleep parts)
    (operation : Operation)
    (outbound : Outbound) :
    Punctual session (requests ++ [request])
      (⟨next, operation, outbound, 0, request.clock⟩ :: asleep) parts := by
  refine { punctual with waiting := ?_ }
  intro asked among call sleeps same
  rcases List.mem_cons.mp sleeps with rfl | older
  · rcases List.mem_append.mp among with earlier | last
    · exact absurd same.symm (accounted.books.numbered asked earlier).ne
    · rcases Binary64.isSafeInteger_iff.mp (punctual.whole asked among) with ⟨start, begun, _⟩
      rw [List.mem_singleton.mp last] at begun ⊢
      exact .inl ⟨start, begun, by simpa using begun⟩
  · exact punctual.waiting asked among call older same

/-- A call is carried on, and no other call does anything. -/
theorem carry
    {call : Call}
    {others : List Call}
    (accounted : Accounted session next requests (call :: others) parts)
    (punctual : Punctual session requests (call :: others) parts)
    (safe : call.due.isSafeInteger = true)
    {made : Nat}
    {progress : Progress}
    {trace : Trace}
    (carried : CarriedOn session call made progress trace)
    (spaced : session.Spaced call made progress trace) :
    Punctual session requests (others ++ progress.rest)
      (parts ++ [trace ++ progress.ending call.index]) := by
  have attempts : ∀ index,
      (Trace.join (parts ++ [trace ++ progress.ending call.index])).attemptsBy index =
        (Trace.join parts).attemptsBy index ++
          if call.index = index then List.replicate made ⟨call.index, call.due⟩ else [] := by
    intro index
    rw [Trace.join_append, Trace.join_singleton, Trace.attemptsBy_append]
    congr 1
    rw [Trace.attemptsBy, carried.attempted_append, List.filter_replicate]
    simp only [beq_iff_eq]
  have due : ∀ request ∈ requests, call.index = request.call →
      session.Timely request call.retried call.due := by
    intro request asked same
    rcases punctual.waiting request asked call List.mem_cons_self same with timely | far
    · exact timely
    · exact absurd (Binary64.le_self_of_isSafeInteger safe) (far.not_le safe)
  refine ⟨punctual.whole, ?made, ?waiting⟩
  case made =>
    intro request asked retried attempt tried
    rw [attempts] at tried
    by_cases same : call.index = request.call
    · have before : ((Trace.join parts).attemptsBy request.call).length = call.retried := by
        rw [Trace.length_attemptsBy, ← same]
        exact accounted.counted call List.mem_cons_self
      rw [if_pos same] at tried
      rcases Nat.lt_or_ge retried call.retried with past | recent
      · rw [List.getElem?_append_left (before ▸ past)] at tried
        exact punctual.made request asked retried attempt tried
      · rw [List.getElem?_append_right (before ▸ recent), before, List.getElem?_replicate,
          Option.ite_none_right_eq_some] at tried
        rcases tried with ⟨within, ⟨⟩⟩
        rcases Nat.eq_or_lt_of_le recent with rfl | further
        · exact due request asked same
        · exact (due request asked same).crowded (spaced.crowded (by omega)) retried
    · rw [if_neg same, List.append_nil] at tried
      exact punctual.made request asked retried attempt tried
  case waiting =>
    intro request asked other among same
    rcases List.mem_append.mp among with left | last
    · exact punctual.waiting request asked other (List.mem_cons_of_mem _ left) same
    · rcases carried.later last with ⟨own, _, counted, _⟩
      have asleep : progress = .asleep other := by
        cases progress with
        | ended outcome => cases last
        | asleep next => rw [List.mem_singleton.mp last]
      have timely := due request asked (own ▸ same)
      rcases spaced.later other asleep with further | far
      · rw [counted]
        have next := timely.next further
        rcases Nat.eq_or_lt_of_le spaced.tried with once | often
        · rw [← once]
          exact .inl next
        · exact .inl (next.crowded (spaced.crowded often) _)
      · exact .inr far

/-- A sleeping call is woken at a safe time. -/
theorem wake
    (count : session.profile.settings.retry.delay.isCount = true)
    (accounted : Accounted session next requests asleep parts)
    (punctual : Punctual session requests asleep parts)
    {call : Call}
    {others : List Call}
    (woken : asleep.Perm (call :: others))
    {target : Binary64}
    (safe : target.isSafeInteger = true)
    (reached : call.due.le target = true)
    (state : State) :
    Punctual session requests (session.wake call others state).1.asleep
      (parts ++ [(session.wake call others state).2]) := by
  have dueSafe : call.due.isSafeInteger = true := by
    have sleeps : call ∈ asleep := woken.mem_iff.mpr List.mem_cons_self
    rcases accounted.held call sleeps with ⟨request, asked, same, _⟩
    rcases punctual.waiting request asked call sleeps same.symm with timely | far
    · exact timely.safe (punctual.whole request asked) safe reached
    · exact absurd reached (far.not_le safe)
  rcases spaced_wake count dueSafe others state with ⟨_, _, _, carried, spaced, left, told⟩
  rw [left, told]
  exact (punctual.perm woken).carry (accounted.perm woken) dueSafe carried spaced

/-- The clock is moved to a safe time. -/
theorem setClock
    (count : session.profile.settings.retry.delay.isCount = true)
    {state : State}
    (accounted : Accounted session next requests state.asleep parts)
    (punctual : Punctual session requests state.asleep parts)
    {target : Binary64}
    (safe : target.isSafeInteger = true) :
    Punctual session requests (session.setClock target state).1.asleep
      (parts ++ session.wakings target state) := by
  have both := session.setClock_rule target
    (fun state parts => Accounted session next requests state.asleep parts ∧
      Punctual session requests state.asleep parts)
    (fun state past call others taken held =>
      ⟨held.1.wake (takeDue_perm taken) state,
        held.2.wake count held.1 (takeDue_perm taken) safe (ahead_takeDue taken).1 state⟩)
    (fun _ _ held => held) state parts ⟨accounted, punctual⟩
  exact both.2

/-- A call is made at a safe time. -/
theorem change
    (count : session.profile.settings.retry.delay.isCount = true)
    {state : State}
    (accounted : Accounted session next requests state.asleep parts)
    (punctual : Punctual session requests state.asleep parts)
    (safe : state.clock.isSafeInteger = true)
    (change : Change) :
    Punctual session (requests ++ [⟨next, change, state.clock⟩])
      (session.change next change state).2.1.asleep
      (parts ++ [(session.change next change state).2.2 ++
        (session.change next change state).1.ending next]) := by
  have asked : Punctual session (requests ++ [⟨next, change, state.clock⟩]) state.asleep parts :=
    punctual.ask accounted rfl safe
  unfold Session.change
  dsimp only
  cases state.replica.apply (change.toOperation state.clock) with
  | error refusal => exact asked.rest (List.Subset.refl _) rfl
  | ok replica =>
      cases prepared : session.profile.prepare (change.toOperation state.clock) with
      | error fault =>
          dsimp only
          unfold publish
          rw [prepared]
          exact asked.rest (List.Subset.refl _) rfl
      | ok outbound =>
          rcases publish_eq_wake prepared next { state with replica } with ⟨left, done⟩
          dsimp only at left done ⊢
          rw [left, done]
          have ready := asked.enter accounted (change.toOperation state.clock) outbound
          exact ready.wake count
            (accounted.ask ⟨next, change, state.clock⟩ rfl prepared state.clock) (.refl _) safe
            (Binary64.le_self_of_isSafeInteger safe) _

end Punctual

/-! ## Courses -/

/-- When the calls of a course make their attempts. -/
def Course.Punctual (session : Session) (course : Course) : Prop :=
  Session.Punctual session course.requests course.state.asleep course.parts

theorem punctual_advance_of_idle
    {course : Course}
    (punctual : course.Punctual session)
    {step : Step}
    {part : Trace}
    (unasked : requested course.next step course.state = [])
    (alone : session.parts course.next step course.state = [part])
    (remaining : (session.step course.next step course.state).state.asleep ⊆
      course.state.asleep)
    (idle : part.attempted = []) :
    (course.advance session step).Punctual session := by
  unfold Course.Punctual Course.advance
  dsimp only
  rw [unasked, List.append_nil, alone]
  exact Session.Punctual.rest punctual remaining idle

theorem punctual_advance_of_setClock
    (count : session.profile.settings.retry.delay.isCount = true)
    {course : Course}
    (accounted : course.Accounted session)
    (punctual : course.Punctual session)
    {step : Step}
    {target : Binary64}
    (unasked : requested course.next step course.state = [])
    (woken : session.parts course.next step course.state =
      session.wakings target course.state)
    (left : (session.step course.next step course.state).state =
      (session.setClock target course.state).1)
    (safe : (session.step course.next step course.state).state.clock.isSafeInteger = true) :
    (course.advance session step).Punctual session := by
  unfold Course.Punctual Course.advance
  dsimp only
  rw [left, setClock_clock] at safe
  rw [unasked, List.append_nil, woken, left]
  exact Session.Punctual.setClock count accounted punctual safe

/-- A step is taken at a safe time and leaves the clock at one. -/
theorem Course.Punctual.advance
    {course : Course}
    (punctual : course.Punctual session)
    (count : session.profile.settings.retry.delay.isCount = true)
    (accounted : course.Accounted session)
    (before : course.state.clock.isSafeInteger = true)
    (step : Step)
    (after : (session.step course.next step course.state).state.clock.isSafeInteger = true) :
    (course.advance session step).Punctual session := by
  cases step with
  | change change => exact Session.Punctual.change count accounted punctual before change
  | inbound message =>
      refine punctual_advance_of_idle punctual rfl rfl ?_ ?_ <;>
        · simp only [Session.step]
          split <;> simp [Trace.ofEvents, Trace.empty]
  | listen => exact punctual_advance_of_idle punctual rfl rfl (List.Subset.refl _) rfl
  | read family key => exact punctual_advance_of_idle punctual rfl rfl (List.Subset.refl _) rfl
  | filter => exact punctual_advance_of_idle punctual rfl rfl (List.Subset.refl _) rfl
  | setClock millis =>
      exact punctual_advance_of_setClock count accounted punctual rfl rfl rfl after
  | adjustClock millis =>
      exact punctual_advance_of_setClock count accounted punctual rfl rfl rfl after
  | interrupt call =>
      cases call with
      | none => exact punctual_advance_of_idle punctual rfl rfl (List.Subset.refl _) rfl
      | some call =>
          refine punctual_advance_of_idle punctual rfl rfl ?_ ?_
          · simp only [Session.step]
            split
            · exact List.filter_subset_self _
            · exact List.Subset.refl _
          · simp only [Session.step]
            split <;> rfl

/-- The times of attempts do not depend on what is delivered to a session. -/
theorem Course.Punctual.fed
    {course : Course}
    (punctual : course.Punctual session)
    (feed : List Message) :
    course.Punctual { session with feed } :=
  { whole := punctual.whole
    made := punctual.made
    waiting := punctual.waiting }

/-! ## Runs -/

/-- Whether the clock shows a safe integer at first and after every step of a run. -/
def KeepsWholeTime (session : Session) (cues : List Cue) (clock : Binary64) : Prop :=
  clock.isSafeInteger = true ∧
    ∀ report ∈ session.perform 0 cues (.initial clock), report.state.clock.isSafeInteger = true

theorem KeepsWholeTime.earlier
    {earlier later : List Cue}
    {clock : Binary64}
    (whole : session.KeepsWholeTime (earlier ++ later) clock) :
    session.KeepsWholeTime earlier clock := by
  refine ⟨whole.1, fun report among => whole.2 report ?_⟩
  rw [perform_append]
  exact List.mem_append_left _ among

theorem KeepsWholeTime.after
    {cues : List Cue}
    {clock : Binary64}
    (whole : session.KeepsWholeTime cues clock) :
    (session.after 0 cues (.initial clock)).clock.isSafeInteger = true := by
  unfold Session.after
  cases reports : (session.perform 0 cues (.initial clock)).reverse with
  | nil =>
      rw [List.reverse_eq_nil_iff.mp reports]
      exact whole.1
  | cons last earlier =>
      have ended := List.reverse_eq_cons_iff.mp reports
      have among : last ∈ session.perform 0 cues (.initial clock) := by
        rw [ended]
        exact List.mem_append_right _ List.mem_cons_self
      rw [ended, List.map_append]
      simpa using whole.2 last among

theorem wake_clock
    (session : Session)
    (call : Call)
    (others : List Call)
    (state : State) :
    (session.wake call others state).1.clock = call.due := by
  unfold wake
  dsimp only
  split <;> rfl

/-- A call that is made at a safe time sleeps until a later one. -/
theorem rests_change
    (count : session.profile.settings.retry.delay.isCount = true)
    {state : State}
    (rests : state.Rests)
    (safe : state.clock.isSafeInteger = true)
    (index : Nat)
    (change : Change) :
    (session.change index change state).2.1.Rests := by
  unfold Session.change
  dsimp only
  cases state.replica.apply (change.toOperation state.clock) with
  | error refusal => exact rests
  | ok replica =>
      cases prepared : session.profile.prepare (change.toOperation state.clock) with
      | error fault =>
          dsimp only
          unfold publish
          rw [prepared]
          exact rests
      | ok outbound =>
          rcases publish_eq_wake prepared index { state with replica } with ⟨left, _⟩
          have dueSafe : (⟨index, change.toOperation state.clock, outbound, 0, state.clock⟩ :
              Call).due.isSafeInteger = true := safe
          rcases spaced_wake count dueSafe state.asleep { state with replica } with
            ⟨_, progress, _, _, spaced, asleep, _⟩
          dsimp only at left ⊢
          rw [left]
          intro sleeper among
          rw [asleep] at among
          rw [wake_clock]
          rcases List.mem_append.mp among with older | last
          · exact rests sleeper older
          · cases progress with
            | ended outcome => cases last
            | asleep next =>
                rw [List.mem_singleton.mp last]
                exact spaced.advances next rfl

theorem rests_step
    (count : session.profile.settings.retry.delay.isCount = true)
    {state : State}
    (rests : state.Rests)
    (safe : state.clock.isSafeInteger = true)
    (index : Nat)
    (step : Step) :
    (session.step index step state).state.Rests := by
  cases step with
  | change change => exact rests_change count rests safe index change
  | inbound message =>
      unfold Session.step
      dsimp only
      split <;> exact rests
  | listen => exact rests
  | read family key => exact rests
  | filter => exact rests
  | setClock millis => exact session.rests_setClock millis state
  | adjustClock millis => exact session.rests_setClock (state.clock + millis) state
  | interrupt call =>
      cases call with
      | none => exact rests
      | some call =>
          unfold Session.step
          dsimp only
          split
          · exact fun sleeper among => rests sleeper (List.mem_of_mem_filter among)
          · exact rests

/-- A session that keeps whole time leaves no call asleep that is due. -/
theorem rests_after
    (count : session.profile.settings.retry.delay.isCount = true)
    {cues : List Cue}
    {clock : Binary64}
    (whole : session.KeepsWholeTime cues clock) :
    (session.after 0 cues (.initial clock)).Rests := by
  induction cues using List.reverseRecOn with
  | nil => exact fun _ among => absurd among List.not_mem_nil
  | append_singleton cues cue ih =>
      have rests := ih whole.earlier
      have safe := whole.earlier.after
      rw [after_append]
      generalize session.after 0 cues (.initial clock) = state at rests safe
      have fed : ({ session with feed := cue.feed } : Session).profile.settings.retry.delay.isCount =
          true := count
      exact rests_step fed rests safe _ cue.step

/-- The attempts of a session that keeps whole time are punctual. -/
theorem punctual_performance
    (count : session.profile.settings.retry.delay.isCount = true)
    {cues : List Cue}
    {clock : Binary64}
    (whole : session.KeepsWholeTime cues clock) :
    (session.performance cues clock).Punctual session := by
  induction cues using List.reverseRecOn with
  | nil => exact .start session
  | append_singleton cues cue ih =>
      have accounted := session.accounted_performance cues clock
      have before := whole.earlier.after
      have after := whole.after
      rw [after_append, ← session.performance_state, Nat.zero_add,
        ← session.performance_next cues clock] at after
      rw [← session.performance_state] at before
      have punctual := (ih whole.earlier).fed cue.feed
      rw [performance_concat]
      exact (punctual.advance count (accounted.fed cue.feed) before cue.step after).fed
        session.feed

section

variable
  (count : session.profile.settings.retry.delay.isCount = true)
  {earlier later : List Cue}
  {change : Change}
  {feed : List Message}
  {clock : Binary64}
  (whole : session.KeepsWholeTime (earlier ++ ⟨.change change, feed⟩ :: later) clock)

include count whole

/--
Each attempt of a call, if it is made, is made so many delays after the call as
there were attempts before it.
-/
theorem timely_of_attempted
    {retried : Nat}
    {attempt : Attempt}
    (tried : (((session.perform 0 (earlier ++ ⟨.change change, feed⟩ :: later)
      (.initial clock)).flatMap (·.trace.attempted)).filter
        (·.call == earlier.length))[retried]? = some attempt) :
    ∃ start, (session.after 0 earlier (.initial clock)).clock.toInt? = some start ∧
      attempt.clock.toInt? = some (start + retried * session.spacing) := by
  rcases session.performance_of_change rfl clock with ⟨asked, _, requests, _⟩
  have attempted := (session.performance_follows
    (earlier ++ ⟨.change change, feed⟩ :: later) clock).attempted
  rw [← attempted] at tried
  have among : ⟨earlier.length, change, (session.after 0 earlier (.initial clock)).clock⟩ ∈
      (session.performance (earlier ++ ⟨.change change, feed⟩ :: later) clock).requests := by
    rw [requests]
    exact List.mem_append_right _ List.mem_cons_self
  exact (punctual_performance count whole).made _ among retried attempt tried

end

end ConvergentStore.Session
