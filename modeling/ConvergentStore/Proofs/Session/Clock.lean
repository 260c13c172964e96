import ConvergentStore.Session.Clock
import Mathlib.Data.List.Basic

/-!
# What a clock wakes

A move of the clock wakes sleeping calls, one after another. `wakings` gives
the trace of each of them in the order in which they are woken, and
`setClock_rule` is the rule by which something is shown of the session after
each of them.
-/

namespace ConvergentStore.Session

/-! ## Traces of several parts -/

namespace Trace

variable (first second : Trace)

@[simp]
theorem finished_append : (first ++ second).finished = first.finished ++ second.finished :=
  rfl

@[simp]
theorem attempted_append : (first ++ second).attempted = first.attempted ++ second.attempted :=
  rfl

@[simp]
theorem published_append : (first ++ second).published = first.published ++ second.published :=
  rfl

theorem append_empty : first ++ empty = first := by
  show append first empty = first
  simp [append, empty]

/-- The trace of parts that follow one another. -/
def join (parts : List Trace) : Trace where
  finished := parts.flatMap (·.finished)
  attempted := parts.flatMap (·.attempted)
  published := parts.flatMap (·.published)
  events := parts.flatMap (·.events)

theorem join_cons (parts : List Trace) : join (first :: parts) = first ++ join parts :=
  rfl

theorem join_append (left right : List Trace) : join (left ++ right) = join left ++ join right := by
  simp only [join, List.flatMap_append]
  rfl

theorem join_singleton : join [first] = first := by
  simp [join]

end Trace

/-! ## Waking -/

/-- The call that is taken and the others are the calls that were asleep. -/
theorem takeDue_perm
    {target : Binary64}
    {calls others : List Call}
    {call : Call}
    (taken : takeDue target calls = some (call, others)) :
    calls.Perm (call :: others) := by
  induction calls generalizing call others with
  | nil => cases taken
  | cons head rest ih =>
      rw [takeDue] at taken
      cases found : takeDue target rest with
      | none =>
          simp only [found] at taken
          split at taken
          · cases taken
            exact .refl _
          · cases taken
      | some pair =>
          rcases pair with ⟨first, left⟩
          simp only [found] at taken
          split at taken
          · cases taken
            exact .refl _
          · cases taken
            exact ((ih found).cons head).trans (.swap call head left)

section

variable (session : Session) (target : Binary64)

theorem setClock_of_none
    {state : State}
    (none : takeDue target state.asleep = none) :
    session.setClock target state = ({ state with clock := target }, .empty) := by
  rw [setClock]
  split
  · rfl
  · next taken =>
      rw [none] at taken
      cases taken

theorem setClock_of_some
    {state : State}
    {call : Call}
    {others : List Call}
    (taken : takeDue target state.asleep = some (call, others)) :
    session.setClock target state =
      ((session.setClock target (session.wake call others state).1).1,
        (session.wake call others state).2 ++
          (session.setClock target (session.wake call others state).1).2) := by
  rw [setClock]
  split
  · next none =>
      rw [taken] at none
      cases none
  · next found =>
      rw [taken] at found
      cases found
      rfl

theorem setClock_clock (state : State) : (session.setClock target state).1.clock = target := by
  induction state using setClock.induct session target with
  | case1 state none => rw [session.setClock_of_none target none]
  | case2 state call others taken woken final trace _ ih =>
      rw [session.setClock_of_some target taken]
      exact ih

/-- The traces of the calls that a move of the clock wakes, in turn. -/
def wakings (state : State) : List Trace :=
  match _taken : takeDue target state.asleep with
  | none => []
  | some (call, others) =>
      let woken := session.wake call others state
      woken.2 :: wakings woken.1
  termination_by ahead target state.asleep
  decreasing_by exact ahead_wake _taken

theorem wakings_of_none
    {state : State}
    (none : takeDue target state.asleep = none) :
    session.wakings target state = [] := by
  rw [wakings]
  split
  · rfl
  · next taken =>
      rw [none] at taken
      cases taken

theorem wakings_of_some
    {state : State}
    {call : Call}
    {others : List Call}
    (taken : takeDue target state.asleep = some (call, others)) :
    session.wakings target state =
      (session.wake call others state).2 ::
        session.wakings target (session.wake call others state).1 := by
  rw [wakings]
  split
  · next none =>
      rw [taken] at none
      cases none
  · next found =>
      rw [taken] at found
      cases found
      rfl

/--
What holds before a call is woken and after it, whichever call it is, holds
when the clock has been moved.
-/
theorem setClock_rule
    (holds : State → List Trace → Prop)
    (wakes : ∀ state past call others, takeDue target state.asleep = some (call, others) →
      holds state past →
        holds (session.wake call others state).1 (past ++ [(session.wake call others state).2]))
    (stops : ∀ state past, holds state past → holds { state with clock := target } past)
    (state : State) :
    ∀ past, holds state past →
      holds (session.setClock target state).1 (past ++ session.wakings target state) := by
  induction state using setClock.induct session target with
  | case1 state none =>
      intro past before
      rw [session.setClock_of_none target none, session.wakings_of_none target none,
        List.append_nil]
      exact stops state past before
  | case2 state call others taken woken final trace ran ih =>
      intro past before
      rw [session.setClock_of_some target taken, session.wakings_of_some target taken,
        List.append_cons]
      exact ih _ (wakes state past call others taken before)

/-- The trace of a move of the clock is made of those of the calls that it wakes. -/
theorem setClock_trace (state : State) :
    (session.setClock target state).2 = .join (session.wakings target state) := by
  induction state using setClock.induct session target with
  | case1 state none =>
      rw [session.setClock_of_none target none, session.wakings_of_none target none]
      rfl
  | case2 state call others taken woken final trace ran ih =>
      rw [session.setClock_of_some target taken, session.wakings_of_some target taken,
        Trace.join_cons, ← ih]

end

end ConvergentStore.Session
