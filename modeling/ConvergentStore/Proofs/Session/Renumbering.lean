import ConvergentStore.Proofs.Session.Accounts

/-!
# Renumbering calls

A session tells its calls apart by their numbers and reads nothing else from
them. So a session whose calls have other numbers, no two of them the same, does
the same under these numbers (`Renumbers.foldl`).
-/

namespace ConvergentStore

/-- Attempts on renamed states that answer alike make bursts that end alike. -/
theorem Policy.burst_map
    {State Other Failure Success : Type}
    (policy : Policy)
    (now : Binary64)
    (rename : State → Other)
    {attempt : State → Except Failure Success × State}
    {renamed : Other → Except Failure Success × Other}
    (same : ∀ state, renamed (rename state) = (attempt state).map id rename)
    (fuel retried : Nat)
    (state : State) :
    policy.burst now renamed fuel retried (rename state) =
      (policy.burst now attempt fuel retried state).map id rename := by
  induction fuel generalizing retried state with
  | zero =>
      simp only [burst, same]
      rfl
  | succ fuel ih =>
      simp only [burst, same]
      rcases made : attempt state with ⟨result, next⟩
      dsimp only [Prod.map, id]
      cases policy.stage now retried result with
      | some stage => rfl
      | none => exact ih (retried + 1) next

namespace Session

/-! ## Numbers -/

section

variable (number : Nat → Nat)

/-- The call with the number that a numbering gives it. -/
def Call.renumber (call : Call) : Call :=
  { call with index := number call.index }

def Attempt.renumber (attempt : Attempt) : Attempt :=
  { attempt with call := number attempt.call }

def Publication.renumber (publication : Publication) : Publication :=
  { publication with call := number publication.call }

/-- The trace, told with other numbers. -/
def Trace.renumber (trace : Trace) : Trace where
  finished := trace.finished.map (Prod.map number id)
  attempted := trace.attempted.map (·.renumber number)
  published := trace.published.map (·.renumber number)
  events := trace.events

def Relay.renumber (relay : Relay) : Relay :=
  { relay with trace := relay.trace.renumber number }

def Progress.renumber : Progress → Progress
  | .ended outcome => .ended outcome
  | .asleep call => .asleep (call.renumber number)

def CallAnswer.renumber : CallAnswer → CallAnswer
  | .outcome result => .outcome result
  | .pending index => .pending (number index)

/-- The state in which the sleeping calls have other numbers. -/
def State.renumber (state : State) : State :=
  { state with asleep := state.asleep.map (·.renumber number) }

/-- The step, naming the call that it stops by another number. -/
def Step.renumber : Step → Step
  | .interrupt call => .interrupt (call.map number)
  | step => step

def Cue.renumber (cue : Cue) : Cue :=
  { cue with step := cue.step.renumber number }

@[simp]
theorem Trace.renumber_empty : Trace.empty.renumber number = .empty :=
  rfl

@[simp]
theorem Trace.renumber_append (first second : Trace) :
    (first ++ second).renumber number = first.renumber number ++ second.renumber number := by
  show renumber number (append first second) = append _ _
  simp only [renumber, append, List.map_append]

@[simp]
theorem Trace.renumber_ofFinished (index : Nat) (outcome : Outcome) :
    (Trace.ofFinished index outcome).renumber number = .ofFinished (number index) outcome :=
  rfl

theorem Trace.renumber_join (parts : List Trace) :
    (Trace.join parts).renumber number = .join (parts.map (·.renumber number)) := by
  simp only [join, renumber, List.map_flatMap, List.flatMap_map]

/-! ## Calls -/

variable (session : Session)

theorem attempt_renumber
    (index : Nat)
    (operation : Operation)
    (outbound : Outbound)
    (clock : Binary64)
    (relay : Relay) :
    session.attempt (number index) operation outbound clock (relay.renumber number) =
      (session.attempt index operation outbound clock relay).map id (·.renumber number) := by
  unfold attempt
  dsimp only [Relay.renumber]
  split
  · simp only [Prod.map, id, Trace.renumber_append]
    rfl
  · simp only [Prod.map, id, Trace.renumber_append]
    rfl

theorem proceed_renumber
    (index : Nat)
    (operation : Operation)
    (outbound : Outbound)
    (retried : Nat)
    (clock : Binary64)
    (attempts : Nat) :
    session.proceed (number index) operation outbound retried clock attempts =
      (session.proceed index operation outbound retried clock attempts).map
        (·.renumber number) (·.renumber number) := by
  have burst := session.profile.settings.retry.burst_map clock (Relay.renumber number)
    (session.attempt_renumber number index operation outbound clock) Policy.patience retried
    ⟨attempts, .empty⟩
  have begun : Relay.renumber number ⟨attempts, .empty⟩ = ⟨attempts, .empty⟩ := rfl
  rw [begun] at burst
  unfold proceed
  rw [burst]
  rcases session.profile.settings.retry.burst clock
    (session.attempt index operation outbound clock) Policy.patience retried ⟨attempts, .empty⟩
      with ⟨stage, relay⟩
  cases stage <;> rfl

theorem takeDue_renumber
    (target : Binary64)
    (calls : List Call) :
    takeDue target (calls.map (·.renumber number)) =
      (takeDue target calls).map
        (Prod.map (·.renumber number) (List.map (·.renumber number))) := by
  induction calls with
  | nil => rfl
  | cons head rest ih =>
      rw [List.map_cons, takeDue, takeDue, ih]
      cases takeDue target rest with
      | none =>
          dsimp only [Option.map_none]
          rw [apply_ite (Option.map _)]
          rfl
      | some pair =>
          dsimp only [Option.map_some]
          rw [apply_ite (Option.map _)]
          rfl

theorem Progress.rest_renumber (progress : Progress) :
    (progress.renumber number).rest = progress.rest.map (·.renumber number) := by
  cases progress <;> rfl

theorem Progress.ending_renumber
    (index : Nat)
    (progress : Progress) :
    (progress.renumber number).ending (number index) =
      (progress.ending index).renumber number := by
  cases progress <;> rfl

theorem wake_renumber
    (call : Call)
    (others : List Call)
    (state : State) :
    session.wake (call.renumber number) (others.map (·.renumber number))
        (state.renumber number) =
      (session.wake call others state).map (·.renumber number) (·.renumber number) := by
  rcases proceeded : session.proceed call.index call.operation call.outbound call.retried
    call.due state.attempts with ⟨progress, relay⟩
  have alike : session.proceed (number call.index) call.operation call.outbound call.retried
      call.due (state.renumber number).attempts =
        (progress.renumber number, relay.renumber number) :=
    (session.proceed_renumber number _ _ _ _ _ _).trans (congrArg (Prod.map _ _) proceeded)
  rw [wake_eq (call.renumber number) alike, wake_eq call proceeded]
  have ending := progress.ending_renumber number call.index
  simp only [Prod.map, State.renumber, Call.renumber, Relay.renumber, List.map_append,
    Trace.renumber_append, ← ending, Progress.rest_renumber]

theorem setClock_renumber
    (target : Binary64)
    (state : State) :
    (session.setClock target (state.renumber number)).1 =
        (session.setClock target state).1.renumber number ∧
      session.wakings target (state.renumber number) =
        (session.wakings target state).map (·.renumber number) := by
  induction state using setClock.induct session target with
  | case1 state idle =>
      have still : takeDue target (state.renumber number).asleep = none := by
        unfold State.renumber
        rw [takeDue_renumber, idle]
        rfl
      rw [session.setClock_of_none target idle, session.wakings_of_none target idle,
        session.setClock_of_none target still, session.wakings_of_none target still]
      exact ⟨rfl, rfl⟩
  | case2 state call others taken next final trace ran ih =>
      have alike : takeDue target (state.renumber number).asleep =
          some (call.renumber number, others.map (·.renumber number)) := by
        unfold State.renumber
        rw [takeDue_renumber, taken]
        rfl
      rw [session.setClock_of_some target taken, session.wakings_of_some target taken,
        session.setClock_of_some target alike, session.wakings_of_some target alike,
        wake_renumber]
      dsimp only [Prod.map]
      rw [ih.1, ih.2]
      exact ⟨rfl, rfl⟩

/-- What a call answers that has been carried on at once. -/
def Progress.answer (index : Nat) : Progress → CallAnswer
  | .ended outcome => .outcome outcome
  | .asleep _ => .pending index

theorem publish_eq
    {index : Nat}
    {operation : Operation}
    {outbound : Outbound}
    {state : State}
    {progress : Progress}
    {relay : Relay}
    (prepared : session.profile.prepare operation = .ok outbound)
    (proceeded : session.proceed index operation outbound 0 state.clock state.attempts =
      (progress, relay)) :
    session.publish index operation state =
      (progress.answer index,
        { state with attempts := relay.attempts, asleep := state.asleep ++ progress.rest },
        relay.trace) := by
  unfold publish
  rw [prepared]
  dsimp only
  rw [proceeded]
  cases progress with
  | ended outcome =>
      dsimp only [Progress.answer, Progress.rest]
      rw [List.append_nil]
  | asleep later => rfl

theorem publish_renumber
    (index : Nat)
    (operation : Operation)
    (state : State) :
    session.publish (number index) operation (state.renumber number) =
      (session.publish index operation state).map (·.renumber number)
        (Prod.map (·.renumber number) (·.renumber number)) := by
  cases prepared : session.profile.prepare operation with
  | error fault =>
      unfold publish
      rw [prepared]
      rfl
  | ok outbound =>
      rcases proceeded : session.proceed index operation outbound 0 state.clock
        state.attempts with ⟨progress, relay⟩
      have alike : session.proceed (number index) operation outbound 0
          (state.renumber number).clock (state.renumber number).attempts =
            (progress.renumber number, relay.renumber number) :=
        (session.proceed_renumber number _ _ _ _ _ _).trans (congrArg (Prod.map _ _) proceeded)
      rw [session.publish_eq prepared proceeded, session.publish_eq prepared alike]
      simp only [Prod.map, State.renumber, Relay.renumber, List.map_append,
        Progress.rest_renumber]
      cases progress <;> rfl

theorem change_renumber
    (index : Nat)
    (change : Change)
    (state : State) :
    session.change (number index) change (state.renumber number) =
      (session.change index change state).map (·.renumber number)
        (Prod.map (·.renumber number) (·.renumber number)) := by
  unfold Session.change
  dsimp only
  have applied : (state.renumber number).replica.apply
      (change.toOperation (state.renumber number).clock) =
        state.replica.apply (change.toOperation state.clock) := rfl
  rw [applied]
  cases state.replica.apply (change.toOperation state.clock) with
  | error refusal => rfl
  | ok replica => exact session.publish_renumber number index _ { state with replica }

end

/-! ## Steps -/

section

variable {number : Nat → Nat} (injective : Function.Injective number) (session : Session)

theorem step_interrupt
    (index call : Nat)
    (state : State) :
    session.step index (.interrupt (some call)) state =
      if state.asleep.any (·.index == call) then
        ⟨.interrupted true,
          { state with asleep := state.asleep.filter (·.index != call) },
          .ofFinished call .interrupted⟩
      else ⟨.interrupted false, state, .empty⟩ :=
  rfl

include injective

theorem beq_renumber
    (call : Call)
    (index : Nat) :
    ((call.renumber number).index == number index) = (call.index == index) := by
  rw [Bool.eq_iff_iff, beq_iff_eq, beq_iff_eq]
  exact injective.eq_iff

/-- A step does the same under other numbers. -/
theorem step_renumber
    (index : Nat)
    (step : Step)
    (state : State) :
    (session.step (number index) (step.renumber number) (state.renumber number)).state =
        (session.step index step state).state.renumber number ∧
      session.parts (number index) (step.renumber number) (state.renumber number) =
        (session.parts index step state).map (·.renumber number) := by
  cases step with
  | change change =>
      have alike := session.change_renumber number index change state
      simp only [Step.renumber, Session.step, parts, alike]
      rcases session.change index change state with ⟨answer, next, trace⟩
      cases answer <;>
        simp [CallAnswer.renumber, CallAnswer.ending]
  | inbound message =>
      simp only [Step.renumber, Session.step, parts, State.renumber]
      cases session.profile.ingest message state.replica <;> exact ⟨rfl, rfl⟩
  | listen => exact ⟨rfl, rfl⟩
  | read family key => exact ⟨rfl, rfl⟩
  | filter => exact ⟨rfl, rfl⟩
  | setClock millis => exact session.setClock_renumber number millis state
  | adjustClock millis => exact session.setClock_renumber number (state.clock + millis) state
  | interrupt call =>
      cases call with
      | none => exact ⟨rfl, rfl⟩
      | some call =>
          have sleeps : (state.renumber number).asleep.any (·.index == number call) =
              state.asleep.any (·.index == call) := by
            simp only [State.renumber, List.any_map, Function.comp_def, beq_renumber injective]
          have others : (state.renumber number).asleep.filter (·.index != number call) =
              (state.asleep.filter (·.index != call)).map (·.renumber number) := by
            simp only [State.renumber, List.filter_map, Function.comp_def, bne,
              beq_renumber injective]
          simp only [Step.renumber, Option.map_some, parts, step_interrupt, sleeps, others]
          split <;> exact ⟨rfl, rfl⟩

end

/-! ## Courses -/

/-- Whether a course is another one under other numbers, those of the steps to come included. -/
structure Course.Renumbers (number : Nat → Nat) (course renumbered : Course) : Prop where
  next : ∀ steps, renumbered.next + steps = number (course.next + steps)
  state : renumbered.state = course.state.renumber number
  parts : renumbered.parts = course.parts.map (·.renumber number)

namespace Course.Renumbers

variable {number : Nat → Nat} {course renumbered : Course}

theorem follow
    (renumbers : course.Renumbers number renumbered)
    (injective : Function.Injective number)
    (session : Session)
    (cue : Cue) :
    (course.follow session cue).Renumbers number
      (renumbered.follow session (cue.renumber number)) := by
  rcases step_renumber injective { session with feed := cue.feed } course.next cue.step
    course.state with ⟨left, done⟩
  have next : renumbered.next = number course.next := renumbers.next 0
  refine ⟨?_, ?_, ?_⟩
  · intro steps
    have later := renumbers.next (steps + 1)
    simp only [Course.follow, Course.advance, Nat.add_right_comm _ 1, Nat.add_assoc]
    exact later
  · simp only [Course.follow, Course.advance, Cue.renumber, next, renumbers.state]
    exact left
  · simp only [Course.follow, Course.advance, Cue.renumber, next, renumbers.state,
      renumbers.parts, List.map_append]
    rw [done]

/-- What follows a course is done under its numbers. -/
theorem foldl
    (renumbers : course.Renumbers number renumbered)
    (injective : Function.Injective number)
    (session : Session)
    (cues : List Cue) :
    (cues.foldl (Course.follow session) course).Renumbers number
      ((cues.map (·.renumber number)).foldl (Course.follow session) renumbered) := by
  induction cues generalizing course renumbered with
  | nil => exact renumbers
  | cons cue rest ih => exact ih (renumbers.follow injective session cue)

end Course.Renumbers

/-! ## Numbers that stay -/

theorem map_of_fixed
    {α : Type}
    {rename : α → α}
    {entries : List α}
    (fixed : ∀ entry ∈ entries, rename entry = entry) :
    entries.map rename = entries :=
  (List.map_congr_left fixed).trans (List.map_id entries)

theorem Trace.renumber_of_fixed
    {number : Nat → Nat}
    {trace : Trace}
    (finished : ∀ ending ∈ trace.finished, number ending.1 = ending.1)
    (attempted : ∀ attempt ∈ trace.attempted, number attempt.call = attempt.call)
    (published : ∀ publication ∈ trace.published,
      number publication.call = publication.call) :
    trace.renumber number = trace := by
  have endings : trace.finished.map (Prod.map number id) = trace.finished :=
    map_of_fixed fun ending among => by rw [Prod.map, finished ending among, id]
  have attempts : trace.attempted.map (·.renumber number) = trace.attempted :=
    map_of_fixed fun attempt among => by rw [Attempt.renumber, attempted attempt among]
  have publications : trace.published.map (·.renumber number) = trace.published :=
    map_of_fixed fun publication among => by
      rw [Publication.renumber, published publication among]
  rw [renumber, endings, attempts, publications]

/-- A numbering that keeps the numbers of the steps so far changes nothing in what they have done. -/
theorem Course.Accounted.renumber_eq
    {session : Session}
    {course : Course}
    (accounted : course.Accounted session)
    {number : Nat → Nat}
    (fixed : ∀ step < course.next, number step = step) :
    course.state.renumber number = course.state ∧
      course.parts.map (·.renumber number) = course.parts := by
  have books := accounted.books
  constructor
  · have asleep : course.state.asleep.map (·.renumber number) = course.state.asleep :=
      map_of_fixed fun call among => by
        rw [Call.renumber, fixed _ (books.lt_of_awaiting (List.mem_map_of_mem among))]
    rw [State.renumber, asleep]
  · refine map_of_fixed fun part past => Trace.renumber_of_fixed ?_ ?_ ?_
    · intro ending among
      have ended : ending.1 ∈ (Trace.join course.parts).finished.map (·.1) :=
        List.mem_map_of_mem (List.mem_flatMap.mpr ⟨part, past, among⟩)
      have called := books.standing.mem_iff.mp (List.mem_append_right _ ended)
      rcases List.mem_map.mp called with ⟨request, asked, same⟩
      exact fixed _ (same ▸ books.numbered request asked)
    · intro attempt among
      exact fixed _ (books.attempting attempt (List.mem_flatMap.mpr ⟨part, past, among⟩))
    · intro publication among
      rcases accounted.sent publication (List.mem_flatMap.mpr ⟨part, past, among⟩) with
        ⟨request, asked, same, _⟩
      exact fixed _ (same ▸ books.numbered request asked)

end Session

end ConvergentStore
