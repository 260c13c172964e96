import ConvergentStore.Proofs.Number.Order
import ConvergentStore.Proofs.Session.Course

/-!
# Moves of the clock

A call that is due when the clock stops half-way is the next one to be woken all
the same, so a move of the clock may stop anywhere on its way (`setClock_stop`):
the same calls are woken, in the same order and at the same times. Any moves
forward to one end therefore come to the same (`foldl_follow_of_forward`).
-/

namespace ConvergentStore

theorem Binary64.le_of_not_le
    {x y limit : Binary64}
    (below : x.le limit = true)
    (number : y.isNaN = false)
    (above : ¬ y.le limit = true) :
    x.le y = true := by
  rw [le_iff] at below above ⊢
  refine ⟨below.1, number, ?_⟩
  have more : ¬ y.place ≤ limit.place := fun less => above ⟨number, below.2.1, less⟩
  omega

namespace Session

/-! ## The next call -/

/-- No call is woken on the way to a time at which none is due. -/
theorem takeDue_eq_none_iff
    {target : Binary64}
    {calls : List Call} :
    takeDue target calls = none ↔ ∀ call ∈ calls, ¬ call.due.le target = true := by
  constructor
  · intro none
    induction calls with
    | nil => exact fun _ among => absurd among List.not_mem_nil
    | cons head rest ih =>
        rw [takeDue] at none
        cases found : takeDue target rest with
        | some pair =>
            simp only [found] at none
            split at none <;> cases none
        | none =>
            simp only [found] at none
            split at none
            · cases none
            · next early =>
                intro call among
                rcases List.mem_cons.mp among with rfl | later
                · exact early
                · exact ih found call later
  · intro later
    cases taken : takeDue target calls with
    | none => rfl
    | some pair =>
        have among : pair.1 ∈ calls := (takeDue_perm taken).mem_iff.mpr List.mem_cons_self
        exact absurd (ahead_takeDue taken).1 (later pair.1 among)

/-- The next call to be woken on the way to a time is the next one on the way further. -/
theorem takeDue_of_le
    {stop target : Binary64}
    (below : stop.le target = true)
    {calls others : List Call}
    {call : Call}
    (taken : takeDue stop calls = some (call, others)) :
    takeDue target calls = some (call, others) := by
  induction calls generalizing call others with
  | nil => cases taken
  | cons head rest ih =>
      rw [takeDue] at taken ⊢
      cases found : takeDue stop rest with
      | none =>
          -- All others are due after the stop, if they are due on the way at all.
          simp only [found, Option.ite_none_right_eq_some] at taken
          rcases taken with ⟨early, taken⟩
          have reached := Binary64.le_trans early below
          cases further : takeDue target rest with
          | none => simpa only [reached, ↓reduceIte] using taken
          | some pair =>
              have among : pair.1 ∈ rest :=
                (takeDue_perm further).mem_iff.mpr List.mem_cons_self
              have sooner : head.due.le pair.1.due = true :=
                Binary64.le_of_not_le early
                  (Binary64.le_iff.mp (ahead_takeDue further).1).1
                  (takeDue_eq_none_iff.mp found _ among)
              simpa only [reached, sooner, Bool.and_self, ↓reduceIte] using taken
      | some pair =>
          have due := (ahead_takeDue found).1
          simp only [found] at taken
          rw [ih found]
          dsimp only
          by_cases sooner : head.due.le pair.1.due = true
          · have early := Binary64.le_trans sooner due
            simpa only [early, Binary64.le_trans early below, sooner] using taken
          · simpa only [sooner, Bool.and_false] using taken

/-! ## Stops -/

/-- Whether no sleeping call is due at the time that the clock shows. -/
def State.Rests (state : State) : Prop :=
  ∀ call ∈ state.asleep, ¬ call.due.le state.clock = true

section

variable (session : Session)

/-- A move of the clock does not depend on where the clock stood. -/
theorem setClock_with_clock
    (target clock : Binary64)
    (state : State) :
    session.setClock target { state with clock } = session.setClock target state ∧
      session.wakings target { state with clock } = session.wakings target state := by
  cases taken : takeDue target state.asleep with
  | none =>
      have same : takeDue target ({ state with clock } : State).asleep = none := taken
      rw [session.setClock_of_none target taken, session.wakings_of_none target taken,
        session.setClock_of_none target same, session.wakings_of_none target same]
      exact ⟨rfl, rfl⟩
  | some pair =>
      have same : takeDue target ({ state with clock } : State).asleep = some pair := taken
      rw [session.setClock_of_some target taken, session.wakings_of_some target taken,
        session.setClock_of_some target same, session.wakings_of_some target same]
      exact ⟨rfl, rfl⟩

/-- A move of the clock may stop on its way. -/
theorem setClock_stop
    {stop target : Binary64}
    (below : stop.le target = true)
    (state : State) :
    (session.setClock target (session.setClock stop state).1).1 =
        (session.setClock target state).1 ∧
      session.wakings stop state ++ session.wakings target (session.setClock stop state).1 =
        session.wakings target state := by
  induction state using setClock.induct session stop with
  | case1 state none =>
      rw [session.setClock_of_none stop none, session.wakings_of_none stop none,
        List.nil_append]
      dsimp only
      rw [(session.setClock_with_clock target stop state).1,
        (session.setClock_with_clock target stop state).2]
      exact ⟨rfl, rfl⟩
  | case2 state call others taken woken final trace ran ih =>
      have same := takeDue_of_le below taken
      rw [session.setClock_of_some stop taken, session.wakings_of_some stop taken,
        session.setClock_of_some target same, session.wakings_of_some target same,
        List.cons_append]
      exact ⟨ih.1, congrArg _ ih.2⟩

/-- A move of the clock leaves no call asleep that is due. -/
theorem rests_setClock
    (target : Binary64)
    (state : State) :
    (session.setClock target state).1.Rests := by
  induction state using setClock.induct session target with
  | case1 state none =>
      rw [session.setClock_of_none target none]
      exact takeDue_eq_none_iff.mp none
  | case2 state call others taken woken final trace _ ih =>
      rw [session.setClock_of_some target taken]
      exact ih

/-- While no call is due, a move of the clock to where it stands does nothing. -/
theorem setClock_of_rests
    {state : State}
    (rests : state.Rests) :
    session.setClock state.clock state = (state, .empty) :=
  session.setClock_of_none state.clock (takeDue_eq_none_iff.mpr rests)

/-- What a move of the clock does, does not depend on what is delivered to the session. -/
theorem setClock_fed
    (feed : List Message)
    (target : Binary64)
    (state : State) :
    setClock { session with feed } target state = session.setClock target state ∧
      wakings { session with feed } target state = session.wakings target state := by
  have woken : ∀ call others state,
      wake { session with feed } call others state = session.wake call others state := by
    intro call others state
    unfold wake
    rw [proceed_fed]
  induction state using setClock.induct session target with
  | case1 state none =>
      rw [session.setClock_of_none target none, session.wakings_of_none target none,
        setClock_of_none _ target none, wakings_of_none _ target none]
      exact ⟨rfl, rfl⟩
  | case2 state call others taken next final trace ran ih =>
      rw [session.setClock_of_some target taken, session.wakings_of_some target taken,
        setClock_of_some _ target taken, wakings_of_some _ target taken, woken]
      rw [ih.1, ih.2]
      exact ⟨rfl, rfl⟩

end

/-! ## Moves forward -/

/-- The time to which a step moves the clock, if it does. -/
def Step.target? (clock : Binary64) : Step → Option Binary64
  | .setClock millis => some millis
  | .adjustClock millis => some (clock + millis)
  | _ => none

/-- Whether cues move the clock from a time to another one, once at least and never backwards. -/
inductive Forward : Binary64 → List Cue → Binary64 → Prop
  | once {start finish : Binary64} {cue : Cue}
      (moves : cue.step.target? start = some finish)
      (forward : start.le finish = true) :
      Forward start [cue] finish
  | first {start stop finish : Binary64} {cue : Cue} {rest : List Cue}
      (moves : cue.step.target? start = some stop)
      (forward : start.le stop = true)
      (further : Forward stop rest finish) :
      Forward start (cue :: rest) finish

namespace Forward

theorem le
    {start finish : Binary64}
    {cues : List Cue}
    (forward : Forward start cues finish) :
    start.le finish = true := by
  induction forward with
  | once moves forward => exact forward
  | first moves forward further ih => exact Binary64.le_trans forward ih

theorem one_le_length
    {start finish : Binary64}
    {cues : List Cue}
    (forward : Forward start cues finish) :
    1 ≤ cues.length := by
  cases forward <;> simp

end Forward

/-- What a cue does that moves the clock. -/
theorem follow_of_target
    (session : Session)
    {course : Course}
    {cue : Cue}
    {target : Binary64}
    (moves : cue.step.target? course.state.clock = some target) :
    course.follow session cue =
      ⟨course.next + 1, (session.setClock target course.state).1, course.requests,
        course.parts ++ session.wakings target course.state⟩ := by
  rcases cue with ⟨step, feed⟩
  rcases session.setClock_fed feed target course.state with ⟨moved, woken⟩
  cases step with
  | setClock millis =>
      cases moves
      simp only [Course.follow, Course.advance, Session.step, requested, Session.parts,
        List.append_nil, moved, woken]
  | adjustClock millis =>
      cases moves
      simp only [Course.follow, Course.advance, Session.step, requested, Session.parts,
        List.append_nil, moved, woken]
  | _ => cases moves

/-- Moves forward come to the same as one move to where they end. -/
theorem foldl_follow_of_forward
    (session : Session)
    {start finish : Binary64}
    {cues : List Cue}
    (forward : Forward start cues finish)
    {course : Course}
    (stands : course.state.clock = start) :
    cues.foldl (Course.follow session) course =
      ⟨course.next + cues.length, (session.setClock finish course.state).1, course.requests,
        course.parts ++ session.wakings finish course.state⟩ := by
  induction forward generalizing course with
  | once moves forward =>
      rw [← stands] at moves
      exact session.follow_of_target moves
  | first moves forward further ih =>
      rw [← stands] at moves
      rw [List.foldl_cons, session.follow_of_target moves, ih (session.setClock_clock _ _)]
      rcases session.setClock_stop further.le course.state with ⟨state, woken⟩
      dsimp only
      rw [state, List.append_assoc, woken, List.length_cons, Nat.add_right_comm,
        Nat.add_assoc]

end Session

end ConvergentStore
