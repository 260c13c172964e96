import ConvergentStore.Replicated.Basic
import Mathlib.Data.List.Induction

/-!
# Replaying operations

Operations that are committed one by one, refused ones dropped, are taken from
the end of the list here: a history grows at its end, and the last operation is
committed to what the ones before it have left.
-/

namespace ConvergentStore.Replicated

variable {State Value : Type} [Replicated State Value]

theorem commit_of_apply_eq_ok
    {operation : Operation}
    {state next : State}
    (accepted : apply operation state = .ok next) :
    (commit operation state).2 = next := by
  simp [commit, transact, accepted]

theorem commit_of_apply_eq_error
    {operation : Operation}
    {state : State}
    {refusal : Refusal}
    (refused : apply operation state = .error refusal) :
    (commit operation state).2 = state := by
  simp [commit, transact, refused]

@[simp]
theorem replay_nil (state : State) : replay [] state = state :=
  rfl

theorem replay_append
    (earlier later : List Operation)
    (state : State) :
    replay (earlier ++ later) state = replay later (replay earlier state) := by
  simp only [replay, List.foldl_append]

theorem replay_concat
    (earlier : List Operation)
    (last : Operation)
    (state : State) :
    replay (earlier ++ [last]) state = (commit last (replay earlier state)).2 :=
  replay_append earlier [last] state

end ConvergentStore.Replicated
