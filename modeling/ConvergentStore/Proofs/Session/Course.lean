import ConvergentStore.Proofs.Session.Calls
import ConvergentStore.Proofs.Session.History
import Mathlib.Data.List.Induction

/-!
# The course of a session

The course of a session is all that has happened in it: the calls that were
asked for, and the traces of what calls did, one after another as they did it.
The reports of a session tell the same (`course_follows`), but for the order in
which calls end in one move of the clock. A performance is the course of a
session in which each step has its own feed.
-/

namespace ConvergentStore.Session

/-! ## Requests -/

/-- A call as it is asked for: its number, the change, and the clock at the time. -/
structure Request where
  call : Nat
  change : Change
  clock : Binary64

/-- The operation that a call publishes. -/
def Request.operation (request : Request) : Operation :=
  request.change.toOperation request.clock

/-- The call that a step asks for, if it asks for one. -/
def requested (index : Nat) (step : Step) (state : State) : List Request :=
  match step with
  | .change change => [⟨index, change, state.clock⟩]
  | _ => []

/-! ## Parts -/

/-- The traces of what calls do in a step, in turn: of the one it makes, wakes or stops. -/
def parts (session : Session) (index : Nat) (step : Step) (state : State) : List Trace :=
  match step with
  | .change change =>
      let (answer, _, trace) := session.change index change state
      [trace ++ answer.ending index]
  | .setClock millis => session.wakings millis state
  | .adjustClock millis => session.wakings (state.clock + millis) state
  | step => [(session.step index step state).trace]

/-- The calls that the report of a step says have ended. -/
def Report.endings (index : Nat) (report : Report) : List (Nat × Outcome) :=
  report.trace.finished ++
    match report.answer with
    | .call answer => (answer.ending index).finished
    | _ => []

/-- A report tells what parts tell, but for the order in which calls have ended. -/
structure Report.Tells (index : Nat) (parts : List Trace) (report : Report) : Prop where
  published : report.trace.published = (Trace.join parts).published
  attempted : report.trace.attempted = (Trace.join parts).attempted
  ended : (report.endings index).Perm (Trace.join parts).finished

theorem tells_of_single
    {index : Nat}
    {report : Report}
    (noCall : ∀ answer, report.answer ≠ .call answer) :
    report.Tells index [report.trace] := by
  refine ⟨by rw [Trace.join_singleton], by rw [Trace.join_singleton], ?_⟩
  rw [Trace.join_singleton, Report.endings]
  split
  · next answer called => exact absurd called (noCall answer)
  · rw [List.append_nil]

theorem tells_of_setClock
    (session : Session)
    (index : Nat)
    (target : Binary64)
    (state : State) :
    Report.Tells index (session.wakings target state)
      ⟨.done, (session.setClock target state).1,
        (session.setClock target state).2.inCallOrder⟩ := by
  refine ⟨?_, ?_, ?_⟩
  · rw [← setClock_trace]
    rfl
  · rw [← setClock_trace]
    rfl
  · rw [← setClock_trace, Report.endings, List.append_nil]
    exact List.mergeSort_perm _ _

/-- The report of a step tells what its parts tell. -/
theorem step_tells
    (session : Session)
    (index : Nat)
    (step : Step)
    (state : State) :
    (session.step index step state).Tells index (session.parts index step state) := by
  cases step with
  | change change =>
      simp only [Session.step, parts]
      rcases session.change index change state with ⟨answer, next, trace⟩
      refine ⟨?_, ?_, ?_⟩
      · cases answer <;> simp [Trace.join_singleton, CallAnswer.ending, Trace.ofFinished, Trace.empty]
      · cases answer <;> simp [Trace.join_singleton, CallAnswer.ending, Trace.ofFinished, Trace.empty]
      · rw [Trace.join_singleton, Report.endings]
        exact .refl _
  | inbound message =>
      refine tells_of_single ?_
      intro answer called
      simp only [Session.step] at called
      split at called <;> cases called
  | listen =>
      refine tells_of_single ?_
      intro answer called
      cases called
  | read family key =>
      refine tells_of_single ?_
      intro answer called
      cases called
  | filter =>
      refine tells_of_single ?_
      intro answer called
      cases called
  | setClock millis => exact session.tells_of_setClock index millis state
  | adjustClock millis => exact session.tells_of_setClock index (state.clock + millis) state
  | interrupt call =>
      refine tells_of_single ?_
      intro answer called
      cases call with
      | none => cases called
      | some call =>
          simp only [Session.step] at called
          split at called <;> cases called

/-! ## Courses -/

/-- What has happened in a session so far, and where it stands. -/
structure Course where
  /-- The number of the next step. -/
  next : Nat
  state : State
  /-- The calls that were asked for, in turn. -/
  requests : List Request
  /-- What calls did, in turn. -/
  parts : List Trace

/-- The course of a session before its first step. -/
def Course.start (clock : Binary64) : Course :=
  ⟨0, .initial clock, [], []⟩

/-- The course of a session after one more step. -/
def Course.advance (session : Session) (course : Course) (step : Step) : Course where
  next := course.next + 1
  state := (session.step course.next step course.state).state
  requests := course.requests ++ requested course.next step course.state
  parts := course.parts ++ session.parts course.next step course.state

/-- The course of a session that begins at a time of the clock. -/
def course (session : Session) (steps : List Step) (clock : Binary64) : Course :=
  steps.foldl (Course.advance session) (.start clock)

/-- All that happened in the course of a session. -/
def Course.trace (course : Course) : Trace :=
  .join course.parts

theorem course_concat
    (session : Session)
    (steps : List Step)
    (step : Step)
    (clock : Binary64) :
    session.course (steps ++ [step]) clock = (session.course steps clock).advance session step :=
  List.foldl_append

/-- A step is known by the number of steps before it. -/
theorem course_next
    (session : Session)
    (steps : List Step)
    (clock : Binary64) :
    (session.course steps clock).next = steps.length := by
  induction steps using List.reverseRecOn with
  | nil => rfl
  | append_singleton steps step ih =>
      rw [course_concat, List.length_append, ← ih]
      rfl

/-- A call that was asked for belongs to a step, and its clock is the one that the step found. -/
theorem step_of_request
    {session : Session}
    {steps : List Step}
    {clock : Binary64}
    {request : Request}
    (asked : request ∈ (session.course steps clock).requests) :
    ∃ before after,
      steps = before ++ .change request.change :: after ∧
        request.call = before.length ∧
        request.clock = (session.course before clock).state.clock := by
  induction steps using List.reverseRecOn with
  | nil => cases asked
  | append_singleton steps step ih =>
      rw [course_concat] at asked
      rcases List.mem_append.mp asked with earlier | last
      · rcases ih earlier with ⟨before, after, rfl, number, time⟩
        exact ⟨before, after ++ [step], List.append_assoc _ _ _, number, time⟩
      · cases step with
        | change change =>
            have same : request =
                ⟨(session.course steps clock).next, change,
                  (session.course steps clock).state.clock⟩ := List.mem_singleton.mp last
            rw [same]
            exact ⟨steps, [], rfl, session.course_next steps clock, rfl⟩
        | _ => cases last

/-! ## Performances -/

/-- The course of a session after one more cue. -/
def Course.follow (session : Session) (course : Course) (cue : Cue) : Course :=
  course.advance { session with feed := cue.feed } cue.step

/-- The course of a session that follows cues from a time of the clock. -/
def performance (session : Session) (cues : List Cue) (clock : Binary64) : Course :=
  cues.foldl (Course.follow session) (.start clock)

theorem course_eq_performance
    (session : Session)
    (steps : List Step)
    (clock : Binary64) :
    session.course steps clock =
      session.performance (steps.map fun step => ⟨step, session.feed⟩) clock := by
  rw [performance, List.foldl_map]
  rfl

theorem performance_append
    (session : Session)
    (earlier later : List Cue)
    (clock : Binary64) :
    session.performance (earlier ++ later) clock =
      later.foldl (Course.follow session) (session.performance earlier clock) :=
  List.foldl_append

theorem performance_concat
    (session : Session)
    (cues : List Cue)
    (cue : Cue)
    (clock : Binary64) :
    session.performance (cues ++ [cue]) clock = (session.performance cues clock).follow session cue :=
  session.performance_append cues [cue] clock

theorem foldl_follow_next
    (session : Session)
    (cues : List Cue)
    (course : Course) :
    (cues.foldl (Course.follow session) course).next = course.next + cues.length := by
  induction cues generalizing course with
  | nil => rfl
  | cons cue rest ih =>
      rw [List.foldl_cons, ih, List.length_cons, Nat.add_comm rest.length, ← Nat.add_assoc]
      rfl

/-- A cue is known by the number of cues before it. -/
theorem performance_next
    (session : Session)
    (cues : List Cue)
    (clock : Binary64) :
    (session.performance cues clock).next = cues.length :=
  (session.foldl_follow_next cues (.start clock)).trans (Nat.zero_add _)

/-- Nothing is taken away from a course that goes on. -/
theorem foldl_follow_grows
    (session : Session)
    (cues : List Cue)
    (course : Course) :
    ∃ asked done,
      (cues.foldl (Course.follow session) course).requests = course.requests ++ asked ∧
        (cues.foldl (Course.follow session) course).parts = course.parts ++ done := by
  induction cues generalizing course with
  | nil => exact ⟨[], [], (List.append_nil _).symm, (List.append_nil _).symm⟩
  | cons cue rest ih =>
      rcases ih (course.follow session cue) with ⟨asked, done, requests, parts⟩
      exact ⟨_, _, requests.trans (List.append_assoc _ _ _),
        parts.trans (List.append_assoc _ _ _)⟩

theorem foldl_follow_state
    (session : Session)
    (cues : List Cue)
    (course : Course) :
    (cues.foldl (Course.follow session) course).state =
      session.after course.next cues course.state := by
  induction cues generalizing course with
  | nil => rfl
  | cons cue rest ih =>
      rw [List.foldl_cons, ih, after_cons]
      rfl

theorem performance_state
    (session : Session)
    (cues : List Cue)
    (clock : Binary64) :
    (session.performance cues clock).state = session.after 0 cues (.initial clock) :=
  session.foldl_follow_state cues (.start clock)

/-! ## Reports -/

theorem foldl_follow_reports
    (session : Session)
    (cues : List Cue)
    (course : Course) :
    (cues.foldl (Course.follow session) course).trace.published =
        course.trace.published ++
          (session.perform course.next cues course.state).flatMap (·.trace.published) ∧
      (cues.foldl (Course.follow session) course).trace.attempted =
        course.trace.attempted ++
          (session.perform course.next cues course.state).flatMap (·.trace.attempted) ∧
      (cues.foldl (Course.follow session) course).trace.finished.Perm
        (course.trace.finished ++
          ((session.perform course.next cues course.state).zipIdx course.next).flatMap
            fun entry => entry.1.endings entry.2) := by
  induction cues generalizing course with
  | nil => simp [perform]
  | cons cue rest ih =>
      rcases ih (course.follow session cue) with ⟨published, attempted, ended⟩
      have told := step_tells { session with feed := cue.feed } course.next cue.step course.state
      simp only [List.foldl_cons, perform, List.flatMap_cons, List.zipIdx_cons]
      refine ⟨?_, ?_, ?_⟩
      · rw [published, told.published, ← List.append_assoc]
        simp [Course.follow, Course.advance, Course.trace, Trace.join_append]
      · rw [attempted, told.attempted, ← List.append_assoc]
        simp [Course.follow, Course.advance, Course.trace, Trace.join_append]
      · refine ended.trans ?_
        rw [← List.append_assoc]
        refine List.Perm.append ?_ (.refl _)
        simp only [Course.follow, Course.advance, Course.trace, Trace.join_append,
          Trace.finished_append]
        exact told.ended.symm.append_left _

/-- A course is the one that reports tell of, but for the order in which calls have ended. -/
structure Course.Follows (course : Course) (clock : Binary64) (reports : List Report) : Prop where
  state : course.state = (reports.map (·.state)).getLastD (.initial clock)
  published : course.trace.published = reports.flatMap (·.trace.published)
  attempted : course.trace.attempted = reports.flatMap (·.trace.attempted)
  ended : course.trace.finished.Perm
    (reports.zipIdx.flatMap fun entry => entry.1.endings entry.2)

/-- The reports of a session that follows cues tell of its performance. -/
theorem performance_follows
    (session : Session)
    (cues : List Cue)
    (clock : Binary64) :
    (session.performance cues clock).Follows clock (session.perform 0 cues (.initial clock)) := by
  rcases session.foldl_follow_reports cues (.start clock) with ⟨published, attempted, ended⟩
  exact ⟨session.performance_state cues clock, published, attempted, ended⟩

/-- The reports of a session tell of its course. -/
theorem course_follows
    (session : Session)
    (steps : List Step)
    (clock : Binary64) :
    (session.course steps clock).Follows clock (session.run steps clock) := by
  rw [course_eq_performance, run, runFrom_eq_perform]
  exact session.performance_follows _ clock

end ConvergentStore.Session
