import ConvergentStore.Proofs.Replica.Change
import ConvergentStore.Proofs.Session.Accounts

/-!
# Publication

Each call that ends well has published its message exactly once, and no other
call has published anything (`publication_exactly_once`).
-/

namespace ConvergentStore.Session

/-- What has happened in a course up to a point, counted in parts. -/
def Course.past (course : Course) (point : Nat) : Trace :=
  .join (course.parts.take point)

/--
Whether a message is the one that a call publishes. It was fixed when the call
was asked for: it has the kind of the session, the words that route the
operation of the change and the marker of the session, and its content is the
encoded operation, encrypted for the key of the session. The operation of a
write is stamped with the second that the clock showed at that time.
-/
def Publishes
    (session : Session)
    (steps : List Step)
    (clock : Binary64)
    (call : Nat)
    (outbound : Outbound) : Prop :=
  ∃ before change after operation route recipient document content,
    steps = before ++ .change change :: after ∧
      call = before.length ∧
      change.Asks (session.course before clock).state.clock operation route ∧
      session.profile.identity.publicKey = .ok recipient ∧
      operation.encode = .ok document ∧
      session.profile.cipher.encrypt document recipient = .ok content ∧
      outbound = ⟨session.profile.settings.kind, content,
        [route, ["t", session.profile.settings.marker]]⟩

/-- How the messages that the relay took go with the calls of a session. -/
structure PublishedOnce (session : Session) (steps : List Step) (clock : Binary64) : Prop where
  /-- The course of the session is the one that its reports tell of. -/
  reported : (session.course steps clock).Follows clock (session.run steps clock)
  /-- No two calls have the same number. -/
  distinct : ((session.course steps clock).requests.map (·.call)).Nodup
  /-- Each call that was asked for sleeps or has ended, once, and not both. -/
  standing :
    ((session.course steps clock).state.asleep.map (·.index) ++
        (session.course steps clock).trace.finished.map (·.1)).Perm
      ((session.course steps clock).requests.map (·.call))
  /-- The messages taken so far are in turn those of the calls that ended well, and
  these answered the identifiers that the messages were given. -/
  matched : ∀ point,
    ((session.course steps clock).past point).deliveries =
      ((session.course steps clock).past point).successes
  /-- A call that sleeps has published no message. -/
  pending : ∀ call ∈ (session.course steps clock).state.asleep,
    ∀ publication ∈ (session.course steps clock).trace.published, publication.call ≠ call.index
  /-- A call that failed or was stopped has published no message. -/
  unpublished : ∀ ending ∈ (session.course steps clock).trace.finished,
    ending.2.messageId? = none →
      ∀ publication ∈ (session.course steps clock).trace.published, publication.call ≠ ending.1
  /-- A call that has ended makes no attempt. -/
  quiet : (session.course steps clock).parts.Pairwise fun earlier later =>
    ∀ ending ∈ earlier.finished, ∀ attempt ∈ later.attempted, attempt.call ≠ ending.1
  /-- No call makes more attempts than the policy allows. -/
  limited : session.profile.settings.retry.Bounded →
    ∀ call, (session.course steps clock).trace.attemptsOf call ≤
      session.profile.settings.retry.allowance
  /-- A call publishes the message that was fixed when it was asked for. -/
  fixed : ∀ publication ∈ (session.course steps clock).trace.published,
    session.Publishes steps clock publication.call publication.outbound
  /-- A call that sleeps still holds the message that was fixed when it was asked for. -/
  held : ∀ call ∈ (session.course steps clock).state.asleep,
    session.Publishes steps clock call.index call.outbound

theorem deliveries_eq_successes
    {parts : List Trace}
    (paired : ∀ part ∈ parts, part.deliveries = part.successes) :
    (Trace.join parts).deliveries = (Trace.join parts).successes := by
  induction parts with
  | nil => rfl
  | cons part rest ih =>
      have first := paired part List.mem_cons_self
      have others := ih fun other among => paired other (List.mem_cons_of_mem _ among)
      rw [Trace.deliveries, Trace.successes] at first others ⊢
      rw [Trace.join_cons, Trace.finished_append, Trace.published_append, List.map_append,
        List.filterMap_append, first, others]

/-- A message that the relay took is that of a call which ended with its identifier. -/
theorem ended_of_published
    {trace : Trace}
    (matched : trace.deliveries = trace.successes)
    {publication : Publication}
    (taken : publication ∈ trace.published) :
    (publication.call, .published publication.messageId) ∈ trace.finished := by
  have delivered : (publication.call, publication.messageId) ∈ trace.deliveries :=
    List.mem_map_of_mem taken
  rw [matched, Trace.successes, List.mem_filterMap] at delivered
  rcases delivered with ⟨⟨call, outcome⟩, ended, answered⟩
  cases outcome with
  | published messageId =>
      cases answered
      exact ended
  | failed fault => cases answered
  | interrupted => cases answered

theorem publishes_of_answers
    {session : Session}
    {steps : List Step}
    {clock : Binary64}
    {call : Nat}
    {outbound : Outbound}
    (answers : Answers session.profile (session.course steps clock).requests call outbound) :
    session.Publishes steps clock call outbound := by
  rcases answers with ⟨request, asked, rfl, recipient, document, content, owned, encoded,
    encrypted, sent⟩
  rcases step_of_request asked with ⟨before, after, split, number, time⟩
  refine ⟨before, request.change, after, request.operation, request.operation.routingTag,
    recipient, document, content, split, number, ?_, owned, encoded, encrypted, sent⟩
  rw [Request.operation, time]
  exact request.change.asks_toOperation _

/-- In every session each call that ends well has published its message exactly once. -/
theorem publication_exactly_once
    (session : Session)
    (steps : List Step)
    (clock : Binary64) :
    session.PublishedOnce steps clock := by
  have accounted := session.accounted_course steps clock
  have books := accounted.books
  have matched : ∀ point, ((session.course steps clock).past point).deliveries =
      ((session.course steps clock).past point).successes := fun point =>
    deliveries_eq_successes fun part among => books.paired part (List.mem_of_mem_take among)
  have ended : ∀ publication ∈ (session.course steps clock).trace.published,
      (publication.call, .published publication.messageId) ∈
        (session.course steps clock).trace.finished := fun publication =>
    ended_of_published (deliveries_eq_successes books.paired)
  have once := List.nodup_append.mp (books.standing.nodup_iff.mpr books.once)
  exact
    { reported := session.course_follows steps clock
      distinct := books.once
      standing := books.standing
      matched
      pending := by
        intro call sleeps publication taken same
        exact once.2.2 call.index (List.mem_map_of_mem sleeps) publication.call
          (List.mem_map_of_mem (ended publication taken)) same.symm
      unpublished := by
        intro ending among silent publication taken same
        have only := List.inj_on_of_nodup_map once.2.1 among (ended publication taken) same.symm
        rw [only] at silent
        cases silent
      quiet := books.quiet
      limited := accounted.limited
      fixed := fun publication taken => publishes_of_answers (accounted.sent publication taken)
      held := fun call sleeps => publishes_of_answers (accounted.held call sleeps) }

end ConvergentStore.Session
