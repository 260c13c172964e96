import ConvergentStore.Proofs.Operation.Wire
import ConvergentStore.Proofs.Session.Course
import Mathlib.Data.List.Nodup

/-!
# The accounts of a session

A session keeps its calls in order: each call that was asked for is either
asleep or has ended once, and the relay has taken the messages of the calls
that ended well and no others (`Books`). What the sleeping calls hold is
accounted for as well: the attempts they have made and the message they send
(`Accounted`). Both hold after every step, and between the calls that one move
of the clock wakes.
-/

namespace ConvergentStore.Session

/-! ## Messages -/

/--
Whether a message is that of an operation: it has the kind and the marker of the
session and the routing tag of the operation, and its content is the encoded
operation, encrypted for the key of the session.
-/
def Sends (profile : Profile) (operation : Operation) (outbound : Outbound) : Prop :=
  ∃ recipient document content,
    profile.identity.publicKey = .ok recipient ∧
      operation.encode = .ok document ∧
      profile.cipher.encrypt document recipient = .ok content ∧
      outbound = ⟨profile.settings.kind, content,
        [operation.routingTag, ["t", profile.settings.marker]]⟩

theorem sends_of_prepare
    {profile : Profile}
    {operation : Operation}
    {outbound : Outbound}
    (prepared : profile.prepare operation = .ok outbound) :
    Sends profile operation outbound := by
  rcases Operation.ok_of_bind_eq_ok prepared with ⟨recipient, owned, rest⟩
  rcases Operation.ok_of_bind_eq_ok rest with ⟨document, encoded, rest⟩
  rcases Operation.ok_of_bind_eq_ok rest with ⟨content, encrypted, rest⟩
  cases rest
  exact ⟨recipient, document, content, owned, Operation.ok_of_mapError_eq_ok encoded,
    Operation.ok_of_mapError_eq_ok encrypted, rfl⟩

/-! ## Books -/

/-- How the calls of a session stand: those that were asked for, that wait, and that have ended. -/
structure Books
    (next : Nat)
    (requests : List Request)
    (awaiting : List Nat)
    (parts : List Trace) : Prop where
  numbered : ∀ request ∈ requests, request.call < next
  once : (requests.map (·.call)).Nodup
  /-- Each call that was asked for waits or has ended, and not both. -/
  standing : (awaiting ++ (Trace.join parts).finished.map (·.1)).Perm (requests.map (·.call))
  attempting : ∀ attempt ∈ (Trace.join parts).attempted, attempt.call < next
  /-- The messages that the relay took are those of the calls that ended well. -/
  paired : ∀ part ∈ parts, part.deliveries = part.successes
  /-- A call that has ended makes no attempt. -/
  quiet : parts.Pairwise fun earlier later =>
    ∀ ending ∈ earlier.finished, ∀ attempt ∈ later.attempted, attempt.call ≠ ending.1

namespace Books

variable {next : Nat} {requests : List Request} {awaiting : List Nat} {parts : List Trace}

theorem start : Books 0 [] [] [] where
  numbered := fun _ among => absurd among List.not_mem_nil
  once := .nil
  standing := .nil
  attempting := fun _ among => absurd among List.not_mem_nil
  paired := fun _ among => absurd among List.not_mem_nil
  quiet := .nil

theorem awaiting_nodup (books : Books next requests awaiting parts) : awaiting.Nodup :=
  (books.standing.nodup_iff.mpr books.once).sublist (List.sublist_append_left _ _)

theorem lt_of_awaiting
    (books : Books next requests awaiting parts)
    {call : Nat}
    (awaits : call ∈ awaiting) :
    call < next := by
  have asked := books.standing.mem_iff.mp (List.mem_append_left _ awaits)
  rcases List.mem_map.mp asked with ⟨request, among, rfl⟩
  exact books.numbered request among

theorem not_awaiting
    (books : Books next requests awaiting parts)
    {part : Trace}
    (past : part ∈ parts)
    {ending : Nat × Outcome}
    (ended : ending ∈ part.finished) :
    ending.1 ∉ awaiting := by
  intro awaits
  have distinct := books.standing.nodup_iff.mpr books.once
  rw [List.nodup_append] at distinct
  exact distinct.2.2 _ awaits ending.1
    (List.mem_map_of_mem (List.mem_flatMap.mpr ⟨part, past, ended⟩)) rfl

theorem perm
    (books : Books next requests awaiting parts)
    {calls : List Nat}
    (same : awaiting.Perm calls) :
    Books next requests calls parts :=
  { books with standing := (same.symm.append_right _).trans books.standing }

/-- A step without a call passes. -/
theorem pass (books : Books next requests awaiting parts) :
    Books (next + 1) requests awaiting parts where
  numbered := fun request asked => (books.numbered request asked).trans next.lt_succ_self
  once := books.once
  standing := books.standing
  attempting := fun attempt made => (books.attempting attempt made).trans next.lt_succ_self
  paired := books.paired
  quiet := books.quiet

/-- A call is asked for. -/
theorem ask
    (books : Books next requests awaiting parts)
    {request : Request}
    (number : request.call = next) :
    Books (next + 1) (requests ++ [request]) (next :: awaiting) parts where
  numbered := by
    intro asked among
    rcases List.mem_append.mp among with earlier | last
    · exact books.pass.numbered asked earlier
    · rw [List.mem_singleton.mp last, number]
      exact next.lt_succ_self
  once := by
    rw [List.map_append, List.map_singleton, List.nodup_append]
    refine ⟨books.once, List.nodup_singleton _, ?_⟩
    intro call earlier last isLast
    rw [List.mem_singleton.mp isLast, number]
    rcases List.mem_map.mp earlier with ⟨asked, among, rfl⟩
    exact (books.numbered asked among).ne
  standing := by
    rw [List.map_append, List.map_singleton, number]
    exact (books.standing.cons next).trans (List.perm_append_singleton _ _).symm
  attempting := books.pass.attempting
  paired := books.paired
  quiet := books.quiet

/-- Calls that wait do something, and some of them end. -/
theorem enter
    (books : Books next requests awaiting parts)
    {later : List Nat}
    {part : Trace}
    (standing : (later ++ part.finished.map (·.1)).Perm awaiting)
    (attempting : ∀ attempt ∈ part.attempted, attempt.call ∈ awaiting)
    (paired : part.deliveries = part.successes) :
    Books next requests later (parts ++ [part]) where
  numbered := books.numbered
  once := books.once
  standing := by
    rw [Trace.join_append, Trace.join_singleton, Trace.finished_append, List.map_append]
    have moved := (standing.append_right ((Trace.join parts).finished.map (·.1))).trans
      books.standing
    rw [List.append_assoc] at moved
    exact (List.perm_append_comm.append_left later).trans moved
  attempting := by
    intro attempt made
    rw [Trace.join_append, Trace.join_singleton, Trace.attempted_append] at made
    rcases List.mem_append.mp made with past | last
    · exact books.attempting attempt past
    · exact books.lt_of_awaiting (attempting attempt last)
  paired := by
    intro any among
    rcases List.mem_append.mp among with past | last
    · exact books.paired any past
    · rw [List.mem_singleton.mp last]
      exact paired
  quiet := by
    rw [List.pairwise_append]
    refine ⟨books.quiet, List.pairwise_singleton _ _, ?_⟩
    intro earlier past last isLast ending ended attempt made same
    rw [List.mem_singleton.mp isLast] at made
    exact books.not_awaiting past ended (same ▸ attempting attempt made)

end Books

/-! ## Accounts -/

/-- Whether a message is that of a call that was asked for. -/
def Answers (profile : Profile) (requests : List Request) (call : Nat) (outbound : Outbound) :
    Prop :=
  ∃ request ∈ requests, request.call = call ∧ Sends profile request.operation outbound

theorem Answers.mono
    {profile : Profile}
    {requests more : List Request}
    {call : Nat}
    {outbound : Outbound}
    (answers : Answers profile requests call outbound)
    (grown : requests ⊆ more) :
    Answers profile more call outbound := by
  rcases answers with ⟨request, asked, answered⟩
  exact ⟨request, grown asked, answered⟩

/-- How a session stands: its books, and what its sleeping calls have done and hold. -/
structure Accounted
    (session : Session)
    (next : Nat)
    (requests : List Request)
    (asleep : List Call)
    (parts : List Trace) : Prop where
  books : Books next requests (asleep.map (·.index)) parts
  /-- The retries of a sleeping call count its attempts. -/
  counted : ∀ call ∈ asleep, (Trace.join parts).attemptsOf call.index = call.retried
  /-- A call sleeps only if its policy allows one more attempt. -/
  room : session.profile.settings.retry.Bounded →
    ∀ call ∈ asleep, call.retried < session.profile.settings.retry.allowance
  limited : session.profile.settings.retry.Bounded →
    ∀ call, (Trace.join parts).attemptsOf call ≤ session.profile.settings.retry.allowance
  /-- A sleeping call holds the message that it sends. -/
  held : ∀ call ∈ asleep, Answers session.profile requests call.index call.outbound
  sent : ∀ publication ∈ (Trace.join parts).published,
    Answers session.profile requests publication.call publication.outbound

namespace Accounted

variable {session : Session} {next : Nat} {requests : List Request} {asleep : List Call}
  {parts : List Trace}

theorem start (session : Session) : Accounted session 0 [] [] [] where
  books := .start
  counted := fun _ among => absurd among List.not_mem_nil
  room := fun _ _ among => absurd among List.not_mem_nil
  limited := fun _ _ => Nat.zero_le _
  held := fun _ among => absurd among List.not_mem_nil
  sent := fun _ among => absurd among List.not_mem_nil

theorem attemptsOf_next (accounted : Accounted session next requests asleep parts) :
    (Trace.join parts).attemptsOf next = 0 := by
  rw [Trace.attemptsOf, List.countP_eq_zero]
  intro attempt made same
  exact (accounted.books.attempting attempt made).ne (beq_iff_eq.mp same)

theorem perm
    (accounted : Accounted session next requests asleep parts)
    {calls : List Call}
    (same : asleep.Perm calls) :
    Accounted session next requests calls parts where
  books := accounted.books.perm (same.map _)
  counted := fun call among => accounted.counted call (same.mem_iff.mpr among)
  room := fun bounded call among => accounted.room bounded call (same.mem_iff.mpr among)
  limited := accounted.limited
  held := fun call among => accounted.held call (same.mem_iff.mpr among)
  sent := accounted.sent

/-- A call is asked for, and its message is prepared. -/
theorem ask
    (accounted : Accounted session next requests asleep parts)
    (request : Request)
    (number : request.call = next)
    {outbound : Outbound}
    (prepared : session.profile.prepare request.operation = .ok outbound)
    (due : Binary64) :
    Accounted session (next + 1) (requests ++ [request])
      (⟨next, request.operation, outbound, 0, due⟩ :: asleep) parts where
  books := accounted.books.ask number
  counted := by
    intro call among
    rcases List.mem_cons.mp among with rfl | older
    · exact accounted.attemptsOf_next
    · exact accounted.counted call older
  room := by
    intro bounded call among
    rcases List.mem_cons.mp among with rfl | older
    · exact Policy.one_le_allowance _
    · exact accounted.room bounded call older
  limited := accounted.limited
  held := by
    intro call among
    rcases List.mem_cons.mp among with rfl | older
    · exact ⟨request, List.mem_append_right _ (List.mem_singleton.mpr rfl), number,
        sends_of_prepare prepared⟩
    · exact (accounted.held call older).mono (List.subset_append_left _ _)
  sent := fun publication among =>
    (accounted.sent publication among).mono (List.subset_append_left _ _)

/-- The calls asleep are told apart by their indices. -/
theorem apart
    {call : Call}
    {others : List Call}
    (accounted : Accounted session next requests (call :: others) parts)
    {other : Call}
    (among : other ∈ others) :
    call.index ≠ other.index := by
  have distinct := accounted.books.awaiting_nodup
  rw [List.map_cons, List.nodup_cons] at distinct
  intro same
  exact distinct.1 (same ▸ List.mem_map_of_mem among)

/-- A call is carried on, and no other call does anything. -/
theorem carry
    {call : Call}
    {others : List Call}
    (accounted : Accounted session next requests (call :: others) parts)
    {made : Nat}
    {progress : Progress}
    {trace : Trace}
    (carried : CarriedOn session call made progress trace) :
    Accounted session next requests (others ++ progress.rest)
      (parts ++ [trace ++ progress.ending call.index]) := by
  have counts : ∀ index,
      (Trace.join (parts ++ [trace ++ progress.ending call.index])).attemptsOf index =
        (Trace.join parts).attemptsOf index + if call.index = index then made else 0 := by
    intro index
    rw [Trace.join_append, Trace.join_singleton, Trace.attemptsOf_append,
      carried.attemptsOf_append]
  have retried := accounted.counted call List.mem_cons_self
  refine ⟨?books, ?counted, ?room, ?limited, ?held, ?sent⟩
  case books =>
    refine accounted.books.enter ?_ ?_ carried.paired
    · rw [List.map_append, List.append_assoc, carried.rest_append_ended]
      exact List.perm_append_singleton _ _
    · intro attempt attempted
      rw [carried.attempted_append] at attempted
      rw [List.eq_of_mem_replicate attempted]
      exact List.mem_cons_self
  case counted =>
    intro other among
    rw [counts]
    rcases List.mem_append.mp among with left | last
    · rw [if_neg (accounted.apart left), accounted.counted other (List.mem_cons_of_mem _ left)]
      rfl
    · rcases carried.later last with ⟨same, _, further, _⟩
      rw [same, if_pos rfl, retried, further]
  case room =>
    intro bounded other among
    rcases List.mem_append.mp among with left | last
    · exact accounted.room bounded other (List.mem_cons_of_mem _ left)
    · rcases carried.later last with ⟨_, _, _, room⟩
      exact room bounded
  case limited =>
    intro bounded index
    rw [counts]
    split
    · next same =>
        rw [← same, retried]
        exact carried.within bounded (accounted.room bounded call List.mem_cons_self)
    · exact accounted.limited bounded index
  case held =>
    intro other among
    rcases List.mem_append.mp among with left | last
    · exact accounted.held other (List.mem_cons_of_mem _ left)
    · rcases carried.later last with ⟨same, message, _, _⟩
      rw [same, message]
      exact accounted.held call List.mem_cons_self
  case sent =>
    intro publication among
    rw [Trace.join_append, Trace.join_singleton] at among
    rcases List.mem_append.mp among with past | last
    · exact accounted.sent publication past
    · rcases carried.published_append publication last with ⟨ofCall, message⟩
      rw [ofCall, message]
      exact accounted.held call List.mem_cons_self

/-- A part passes in which no attempt is made. -/
theorem rest
    (accounted : Accounted session next requests asleep parts)
    {later : Nat}
    {more : List Request}
    {left : List Call}
    {part : Trace}
    (books : Books later more (left.map (·.index)) (parts ++ [part]))
    (asked : requests ⊆ more)
    (remaining : left ⊆ asleep)
    (idle : part.attempted = [])
    (silent : part.published = []) :
    Accounted session later more left (parts ++ [part]) := by
  have counts : ∀ index, (Trace.join (parts ++ [part])).attemptsOf index =
      (Trace.join parts).attemptsOf index := by
    intro index
    rw [Trace.join_append, Trace.join_singleton, Trace.attemptsOf_append]
    rw [Trace.attemptsOf, Trace.attemptsOf, idle]
    rfl
  refine ⟨books, ?_, ?_, ?_, ?_, ?_⟩
  · intro call among
    rw [counts]
    exact accounted.counted call (remaining among)
  · intro bounded call among
    exact accounted.room bounded call (remaining among)
  · intro bounded index
    rw [counts]
    exact accounted.limited bounded index
  · intro call among
    exact (accounted.held call (remaining among)).mono asked
  · intro publication among
    rw [Trace.join_append, Trace.join_singleton, Trace.published_append, silent,
      List.append_nil] at among
    exact (accounted.sent publication among).mono asked

/-- A step passes in which no call does anything. -/
theorem pass
    (accounted : Accounted session next requests asleep parts)
    {part : Trace}
    (still : part.finished = [])
    (idle : part.attempted = [])
    (silent : part.published = []) :
    Accounted session (next + 1) requests asleep (parts ++ [part]) := by
  refine accounted.rest (accounted.books.pass.enter ?_ ?_ ?_) (List.Subset.refl _)
    (List.Subset.refl _) idle silent
  · rw [still]
    exact List.Perm.of_eq (List.append_nil _)
  · intro attempt attempted
    rw [idle] at attempted
    exact absurd attempted List.not_mem_nil
  · rw [Trace.deliveries, Trace.successes, silent, still]
    rfl

/-- A call is asked for, and it fails before its first attempt. -/
theorem decline
    (accounted : Accounted session next requests asleep parts)
    (request : Request)
    (number : request.call = next)
    (fault : Fault) :
    Accounted session (next + 1) (requests ++ [request]) asleep
      (parts ++ [.ofFinished next (.failed fault)]) := by
  refine accounted.rest ((accounted.books.ask number).enter ?_ ?_ rfl)
    (List.subset_append_left _ _) (List.Subset.refl _) rfl rfl
  · exact List.perm_append_singleton _ _
  · intro attempt attempted
    exact absurd attempted List.not_mem_nil

/-- A sleeping call is stopped. -/
theorem stop
    (accounted : Accounted session next requests asleep parts)
    {call : Nat}
    (sleeps : call ∈ asleep.map (·.index)) :
    Accounted session (next + 1) requests (asleep.filter (·.index != call))
      (parts ++ [.ofFinished call .interrupted]) := by
  refine accounted.rest (accounted.books.pass.enter ?_ ?_ rfl) (List.Subset.refl _)
    (List.filter_subset_self _) rfl rfl
  · have others : (asleep.filter (·.index != call)).map (·.index) =
        (asleep.map (·.index)).erase call := by
      rw [accounted.books.awaiting_nodup.erase_eq_filter, List.filter_map]
      rfl
    rw [others]
    exact (List.perm_append_singleton _ _).trans (List.perm_cons_erase sleeps).symm
  · intro attempt attempted
    exact absurd attempted List.not_mem_nil

/-- A sleeping call is woken. -/
theorem wake
    (accounted : Accounted session next requests asleep parts)
    {call : Call}
    {others : List Call}
    (woken : asleep.Perm (call :: others))
    (state : State) :
    Accounted session next requests (session.wake call others state).1.asleep
      (parts ++ [(session.wake call others state).2]) := by
  rcases carriedOn_wake session call others state with ⟨_, _, _, carried, left, told⟩
  rw [left, told]
  exact (accounted.perm woken).carry carried

/-- The clock is moved. -/
theorem setClock
    {state : State}
    (accounted : Accounted session next requests state.asleep parts)
    (target : Binary64) :
    Accounted session next requests (session.setClock target state).1.asleep
      (parts ++ session.wakings target state) :=
  session.setClock_rule target
    (fun state parts => Accounted session next requests state.asleep parts)
    (fun state _ _ _ taken held => held.wake (takeDue_perm taken) state)
    (fun _ _ held => held) state parts accounted

/-- A call is made. -/
theorem change
    {state : State}
    (accounted : Accounted session next requests state.asleep parts)
    (change : Change) :
    Accounted session (next + 1) (requests ++ [⟨next, change, state.clock⟩])
      (session.change next change state).2.1.asleep
      (parts ++ [(session.change next change state).2.2 ++
        (session.change next change state).1.ending next]) := by
  unfold Session.change
  dsimp only
  cases state.replica.apply (change.toOperation state.clock) with
  | error refusal => exact accounted.decline ⟨next, change, state.clock⟩ rfl _
  | ok replica =>
      cases prepared : session.profile.prepare (change.toOperation state.clock) with
      | error fault =>
          dsimp only
          unfold publish
          rw [prepared]
          exact accounted.decline ⟨next, change, state.clock⟩ rfl _
      | ok outbound =>
          rcases publish_eq_wake prepared next { state with replica } with ⟨left, done⟩
          dsimp only at left done ⊢
          rw [left, done]
          have asked := accounted.ask ⟨next, change, state.clock⟩ rfl prepared state.clock
          exact asked.wake (.refl _) _

end Accounted

/-! ## Courses -/

/-- What is accounted for in the course of a session. -/
def Course.Accounted (session : Session) (course : Course) : Prop :=
  Session.Accounted session course.next course.requests course.state.asleep course.parts

theorem accounted_advance_of_still
    {session : Session}
    {course : Course}
    (accounted : course.Accounted session)
    {step : Step}
    {part : Trace}
    (unasked : requested course.next step course.state = [])
    (alone : session.parts course.next step course.state = [part])
    (left : (session.step course.next step course.state).state.asleep = course.state.asleep)
    (still : part.finished = [])
    (idle : part.attempted = [])
    (silent : part.published = []) :
    (course.advance session step).Accounted session := by
  unfold Course.Accounted Course.advance
  dsimp only
  rw [unasked, List.append_nil, alone, left]
  exact Session.Accounted.pass accounted still idle silent

theorem accounted_advance_of_setClock
    {session : Session}
    {course : Course}
    (accounted : course.Accounted session)
    {step : Step}
    {target : Binary64}
    (unasked : requested course.next step course.state = [])
    (woken : session.parts course.next step course.state =
      session.wakings target course.state)
    (left : (session.step course.next step course.state).state =
      (session.setClock target course.state).1) :
    (course.advance session step).Accounted session := by
  unfold Course.Accounted Course.advance
  dsimp only
  rw [unasked, List.append_nil, woken, left]
  have moved := Session.Accounted.setClock accounted target
  exact { moved with books := moved.books.pass }

theorem accounted_advance
    {session : Session}
    {course : Course}
    (accounted : course.Accounted session)
    (step : Step) :
    (course.advance session step).Accounted session := by
  cases step with
  | change change => exact Session.Accounted.change accounted change
  | inbound message =>
      refine accounted_advance_of_still accounted rfl rfl ?_ ?_ ?_ ?_ <;>
        · simp only [Session.step]
          split <;> rfl
  | listen => exact accounted_advance_of_still accounted rfl rfl rfl rfl rfl rfl
  | read family key => exact accounted_advance_of_still accounted rfl rfl rfl rfl rfl rfl
  | filter => exact accounted_advance_of_still accounted rfl rfl rfl rfl rfl rfl
  | setClock millis => exact accounted_advance_of_setClock accounted rfl rfl rfl
  | adjustClock millis => exact accounted_advance_of_setClock accounted rfl rfl rfl
  | interrupt call =>
      cases call with
      | none => exact accounted_advance_of_still accounted rfl rfl rfl rfl rfl rfl
      | some call =>
          unfold Course.Accounted Course.advance
          dsimp only [requested, parts, Session.step]
          rw [List.append_nil]
          split
          · next sleeps =>
              rw [List.any_eq_true] at sleeps
              rcases sleeps with ⟨sleeper, among, same⟩
              refine Session.Accounted.stop accounted ?_
              rw [← beq_iff_eq.mp same]
              exact List.mem_map_of_mem among
          · exact Session.Accounted.pass accounted rfl rfl rfl

/-- The accounts of a session do not depend on what is delivered to it. -/
theorem Course.Accounted.fed
    {session : Session}
    {course : Course}
    (accounted : course.Accounted session)
    (feed : List Message) :
    course.Accounted { session with feed } :=
  { books := accounted.books
    counted := accounted.counted
    room := accounted.room
    limited := accounted.limited
    held := accounted.held
    sent := accounted.sent }

/-- The performance of a session is accounted for. -/
theorem accounted_performance
    (session : Session)
    (cues : List Cue)
    (clock : Binary64) :
    (session.performance cues clock).Accounted session := by
  induction cues using List.reverseRecOn with
  | nil => exact .start session
  | append_singleton cues cue ih =>
      rw [performance_concat]
      exact (accounted_advance (ih.fed cue.feed) cue.step).fed session.feed

/-- The course of a session is accounted for. -/
theorem accounted_course
    (session : Session)
    (steps : List Step)
    (clock : Binary64) :
    (session.course steps clock).Accounted session := by
  rw [course_eq_performance]
  exact session.accounted_performance _ clock

end ConvergentStore.Session
