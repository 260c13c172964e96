import ConvergentStore.Proofs.Session.Endings
import ConvergentStore.Proofs.Session.History

/-!
# Independence of publication

A session has its replica, what is read of it, what becomes of the messages
that arrive and which calls are invalid. None of this depends on whether the
session has a key, on how it encrypts, on which attempts the relay refuses or
on how failed attempts are retried: two sessions that take the same messages
alike have the same views, whatever becomes of their publications
(`views_independent_of_publication`).
-/

namespace ConvergentStore

namespace Profile

/-- Whether two replicas take messages alike: by kind and marker, and by decryption. -/
structure HearsAs (left right : Profile) : Prop where
  kind : left.settings.kind = right.settings.kind
  marker : left.settings.marker = right.settings.marker
  recognises : left.cipher.recognises = right.cipher.recognises
  decrypt : left.cipher.decrypt = right.cipher.decrypt

section

variable {left right : Profile}

theorem HearsAs.ingest
    (alike : left.HearsAs right)
    (message : Message)
    (replica : Replica) :
    left.ingest message replica = right.ingest message replica := by
  have screened : left.screen message = right.screen message := by
    rw [screen, screen, alike.kind, alike.marker]
  have extracted : left.extract message = right.extract message := by
    rw [extract, extract, reveal, reveal, alike.recognises, alike.decrypt]
  rw [Profile.ingest, Profile.ingest, screened, extracted]

theorem HearsAs.absorbAll
    (alike : left.HearsAs right)
    (messages : List Message)
    (replica : Replica) :
    left.absorbAll messages replica = right.absorbAll messages replica := by
  induction messages generalizing replica with
  | nil => rfl
  | cons message rest ih =>
      have absorbed : left.absorb message replica = right.absorb message replica := by
        rw [absorb, absorb, alike.ingest]
      rw [Profile.absorbAll, Profile.absorbAll, absorbed, ih]

end

/-- An operation whose message cannot be prepared is not thereby invalid. -/
theorem kind_ne_of_prepare_error
    {profile : Profile}
    {operation : Operation}
    {fault : Fault}
    (failed : profile.prepare operation = .error fault) :
    fault.kind ≠ "InvalidOperation" := by
  cases unprepared_of_prepare_error failed <;> simp [Fault.kind]

end Profile

namespace Session

/-! ## Views -/

/-- Whether a call ended because its operation is invalid. -/
def Outcome.invalid : Outcome → Bool
  | .failed fault => fault.kind == "InvalidOperation"
  | .published _ => false
  | .interrupted => false

/-- What a report shows, apart from publication. -/
structure View where
  replica : Replica
  /-- What was read, if the step was to read. -/
  read : Option Replica.Reading
  /-- What became of a message, if the step was one. -/
  arrival : Option (Except Fault Arrival)
  /-- The calls that ended because their operation is invalid. -/
  invalid : List Nat

/-- What was read. -/
def Answer.read? : Answer → Option Replica.Reading
  | .reading value => some value
  | _ => none

/-- What became of a message. -/
def Answer.arrival? : Answer → Option (Except Fault Arrival)
  | .arrival result => some result
  | _ => none

/-- What the report of a step shows, apart from publication. -/
def Report.view (index : Nat) (report : Report) : View where
  replica := report.state.replica
  read := report.answer.read?
  arrival := report.answer.arrival?
  invalid := ((report.endings index).filter (·.2.invalid)).map (·.1)

/-- What a session shows step by step, apart from publication. -/
def viewsFrom (session : Session) (index : Nat) (cues : List Cue) (state : State) : List View :=
  ((session.perform index cues state).zipIdx index).map fun entry => entry.1.view entry.2

/-- What a session shows from the beginning, apart from publication. -/
def views (session : Session) (cues : List Cue) (clock : Binary64) : List View :=
  session.viewsFrom 0 cues (.initial clock)

/-! ## Calls -/

/-- No call that ends by its attempts is invalid. -/
theorem Outcome.FromAttempts.valid
    {outcome : Outcome}
    (ended : outcome.FromAttempts) :
    outcome.invalid = false := by
  cases ended with
  | published messageId => rfl
  | unpublished family attempts cause => simp [Outcome.invalid, Fault.kind]

section

variable (session : Session)

/-- No call turns out to be invalid once its operation is applied. -/
theorem publish_valid
    (index : Nat)
    (operation : Operation)
    (state : State) :
    ∀ ending ∈ ((session.publish index operation state).2.2 ++
        (session.publish index operation state).1.ending index).finished,
      ending.2.invalid = false := by
  intro ending among
  rcases session.publish_ending index operation state ending among with
    attempts | ⟨fault, rfl, failed⟩
  · exact attempts.valid
  · exact beq_false_of_ne (Profile.kind_ne_of_prepare_error failed)

theorem publish_clock
    (index : Nat)
    (operation : Operation)
    (state : State) :
    (session.publish index operation state).2.1.clock = state.clock := by
  unfold publish
  split
  · rfl
  · dsimp only
    split <;> rfl

end

/-! ## Steps -/

theorem invalid_eq_nil
    {endings : List (Nat × Outcome)}
    (valid : ∀ ending ∈ endings, ending.2.invalid = false) :
    (endings.filter (·.2.invalid)).map (·.1) = [] := by
  rw [List.map_eq_nil_iff, List.filter_eq_nil_iff]
  intro ending among
  rw [valid ending among]
  exact Bool.false_ne_true

theorem view_change_of_refused
    (session : Session)
    (index : Nat)
    {change : Change}
    {state : State}
    {refusal : Refusal}
    (refused : state.replica.apply (change.toOperation state.clock) = .error refusal) :
    (session.step index (.change change) state).view index =
        ⟨state.replica, none, none, [index]⟩ ∧
      (session.step index (.change change) state).state.clock = state.clock := by
  unfold Session.step Session.change
  dsimp only
  rw [refused]
  exact ⟨rfl, rfl⟩

theorem view_change_of_applied
    (session : Session)
    (index : Nat)
    {change : Change}
    {state : State}
    {replica : Replica}
    (applied : state.replica.apply (change.toOperation state.clock) = .ok replica) :
    (session.step index (.change change) state).view index = ⟨replica, none, none, []⟩ ∧
      (session.step index (.change change) state).state.clock = state.clock := by
  unfold Session.step Session.change
  dsimp only
  rw [applied]
  dsimp only
  refine ⟨?_, session.publish_clock _ _ _⟩
  rw [Report.view, View.mk.injEq]
  exact ⟨session.publish_replica _ _ _, rfl, rfl, invalid_eq_nil (session.publish_valid _ _ _)⟩

theorem view_setClock
    (session : Session)
    (index : Nat)
    (target : Binary64)
    (state : State) :
    Report.view index ⟨.done, (session.setClock target state).1,
        (session.setClock target state).2.inCallOrder⟩ =
      ⟨state.replica, none, none, []⟩ := by
  rw [Report.view, View.mk.injEq]
  refine ⟨session.setClock_replica target state, rfl, rfl, invalid_eq_nil ?_⟩
  intro ending among
  rw [Report.endings, List.append_nil] at among
  exact (session.setClock_ending target state ending (List.mem_mergeSort.mp among)).valid

theorem view_interrupt
    (session : Session)
    (index : Nat)
    (call : Option Nat)
    (state : State) :
    (session.step index (.interrupt call) state).view index = ⟨state.replica, none, none, []⟩ ∧
      (session.step index (.interrupt call) state).state.clock = state.clock := by
  cases call with
  | none => exact ⟨rfl, rfl⟩
  | some call =>
      unfold Session.step
      dsimp only
      split <;> exact ⟨rfl, rfl⟩

/-- Whether two sessions stand alike, apart from publication. -/
structure State.Alike (left right : State) : Prop where
  replica : left.replica = right.replica
  clock : left.clock = right.clock

/-- A step shows the same of sessions that take messages alike, and leaves them alike. -/
theorem step_alike
    (left right : Session)
    (alike : left.profile.HearsAs right.profile)
    (fed : left.feed = right.feed)
    {leftState rightState : State}
    (stand : leftState.Alike rightState)
    (index : Nat)
    (step : Step) :
    (left.step index step leftState).view index = (right.step index step rightState).view index ∧
      (left.step index step leftState).state.clock =
        (right.step index step rightState).state.clock := by
  have replica := stand.replica
  have clock := stand.clock
  cases step with
  | change change =>
      cases applied : leftState.replica.apply (change.toOperation leftState.clock) with
      | error refusal =>
          rcases left.view_change_of_refused index applied with ⟨leftView, leftClock⟩
          rw [replica, clock] at applied
          rcases right.view_change_of_refused index applied with ⟨rightView, rightClock⟩
          rw [leftView, rightView, leftClock, rightClock, replica]
          exact ⟨rfl, clock⟩
      | ok next =>
          rcases left.view_change_of_applied index applied with ⟨leftView, leftClock⟩
          rw [replica, clock] at applied
          rcases right.view_change_of_applied index applied with ⟨rightView, rightClock⟩
          rw [leftView, rightView, leftClock, rightClock]
          exact ⟨rfl, clock⟩
  | inbound message =>
      have ingested := alike.ingest message rightState.replica
      unfold Session.step
      dsimp only
      rw [replica, ingested]
      cases right.profile.ingest message rightState.replica with
      | ok arrived => exact ⟨rfl, clock⟩
      | error fault => exact ⟨by simp [Report.view, replica, Report.endings], clock⟩
  | listen =>
      have heard := alike.absorbAll right.feed rightState.replica
      refine ⟨?_, clock⟩
      unfold Session.step Report.view Profile.hear
      dsimp only
      rw [fed, replica, heard]
      rfl
  | read family key =>
      refine ⟨?_, clock⟩
      unfold Session.step Report.view
      dsimp only
      rw [replica]
      rfl
  | filter =>
      refine ⟨?_, clock⟩
      unfold Session.step Report.view
      dsimp only
      rw [replica]
      rfl
  | setClock millis =>
      refine ⟨?_, ?_⟩
      · refine (view_setClock left index millis leftState).trans ?_
        rw [replica]
        exact (view_setClock right index millis rightState).symm
      · exact (left.setClock_clock _ _).trans (right.setClock_clock _ _).symm
  | adjustClock millis =>
      refine ⟨?_, ?_⟩
      · refine (view_setClock left index _ leftState).trans ?_
        rw [replica]
        exact (view_setClock right index _ rightState).symm
      · refine (left.setClock_clock _ _).trans ?_
        rw [clock]
        exact (right.setClock_clock _ _).symm
  | interrupt call =>
      rcases left.view_interrupt index call leftState with ⟨leftView, leftClock⟩
      rcases right.view_interrupt index call rightState with ⟨rightView, rightClock⟩
      rw [leftView, rightView, leftClock, rightClock, replica]
      exact ⟨rfl, clock⟩

/-! ## Runs -/

theorem viewsFrom_cons
    (session : Session)
    (index : Nat)
    (cue : Cue)
    (rest : List Cue)
    (state : State) :
    session.viewsFrom index (cue :: rest) state =
      ({ session with feed := cue.feed }.step index cue.step state).view index ::
        session.viewsFrom (index + 1) rest
          ({ session with feed := cue.feed }.step index cue.step state).state :=
  rfl

theorem viewsFrom_eq
    {left right : Session}
    (alike : left.profile.HearsAs right.profile)
    (index : Nat)
    (cues : List Cue)
    {leftState rightState : State}
    (stand : leftState.Alike rightState) :
    left.viewsFrom index cues leftState = right.viewsFrom index cues rightState := by
  induction cues generalizing index leftState rightState with
  | nil => rfl
  | cons cue rest ih =>
      rcases step_alike { left with feed := cue.feed } { right with feed := cue.feed }
        alike rfl stand index cue.step with ⟨view, clock⟩
      have replica := congrArg View.replica view
      rw [viewsFrom_cons, viewsFrom_cons, view, ih (index + 1) ⟨replica, clock⟩]

/--
Two sessions that take messages alike, and are driven alike from the same time,
show the same step by step: whether they have a key or not, however they
encrypt, whatever their relays refuse and however they retry.
-/
theorem views_independent_of_publication
    (left right : Session)
    (alike : left.profile.HearsAs right.profile)
    (cues : List Cue)
    (clock : Binary64) :
    left.views cues clock = right.views cues clock :=
  viewsFrom_eq alike 0 cues ⟨rfl, rfl⟩

/-- One session publishes, the other has no key; an increment by `-1` is invalid in both. -/
theorem views_independent_of_publication_keyless :
    let owner : Session := ⟨⟨.standard, .plain, .owner "alice"⟩, fun _ => false, []⟩
    let keyless : Session :=
      ⟨⟨{ Settings.standard with retry := ⟨.nan, 0⟩ },
        { Cipher.plain with encrypt := Cipher.refusing.encrypt }, .unavailable⟩,
        fun _ => true, []⟩
    let cues : List Cue :=
      [⟨.change (.increment "k" 1), []⟩, ⟨.change (.increment "k" (-1)), []⟩,
        ⟨.read .counter "k", []⟩]
    ((owner.perform 0 cues (.initial 0)).flatMap (·.trace.published)).length = 1 ∧
      ((keyless.perform 0 cues (.initial 0)).flatMap (·.trace.published)).length = 0 ∧
      (owner.views cues 0).map (·.invalid) = [[], [1], []] ∧
      owner.profile.HearsAs keyless.profile ∧
      owner.views cues 0 = keyless.views cues 0 := by
  have alike : Profile.HearsAs ⟨.standard, .plain, .owner "alice"⟩
      ⟨{ Settings.standard with retry := ⟨.nan, 0⟩ },
        { Cipher.plain with encrypt := Cipher.refusing.encrypt }, .unavailable⟩ :=
    ⟨rfl, rfl, rfl, rfl⟩
  exact ⟨by decide +kernel, by decide +kernel, by decide +kernel, alike,
    views_independent_of_publication _ _ alike _ _⟩

end Session

end ConvergentStore
