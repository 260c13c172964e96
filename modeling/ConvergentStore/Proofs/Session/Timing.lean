import ConvergentStore.Proofs.Session.Moves
import ConvergentStore.Proofs.Session.Punctuality
import ConvergentStore.Proofs.Session.Renumbering

/-!
# Timing of retries

When a call makes its attempts is a matter of the call alone: one delay after
another from the time at which it was made. And whether the clock moves forward
at once or step by step is a matter of no consequence, but for the numbers of
the steps after it (`retry_timing_isolated`).
-/

namespace ConvergentStore.Session

/-! ## Steps put in -/

/-- The number of a step when more steps have been put in after the one with a number. -/
def movedOn (last extra step : Nat) : Nat :=
  if step ≤ last then step else step + extra

theorem movedOn_injective (last extra : Nat) : Function.Injective (movedOn last extra) := by
  intro left right same
  unfold movedOn at same
  split at same <;> split at same <;> omega

section

variable
  (session : Session)
  {before moves : List Cue}
  {move : Cue}
  {clock target : Binary64}
  (once : Forward (session.after 0 before (.initial clock)).clock [move] target)
  (often : Forward (session.after 0 before (.initial clock)).clock moves target)

include once often

/-- A session in which the clock has stopped on its way forward goes on under other numbers. -/
theorem performance_moves (later : List Cue) :
    (session.performance (before ++ move :: later) clock).Renumbers
      (movedOn before.length (moves.length - 1))
      (session.performance (before ++ moves ++ later.map
        (·.renumber (movedOn before.length (moves.length - 1)))) clock) := by
  have some := often.one_le_length
  have stands := congrArg State.clock (session.performance_state before clock)
  have next := session.performance_next before clock
  have accounted := session.accounted_performance (before ++ [move]) clock
  have moved := session.foldl_follow_of_forward once stands
  have stopped := session.foldl_follow_of_forward often stands
  rw [← performance_append] at moved stopped
  have fixed : ∀ step < (session.performance (before ++ [move]) clock).next,
      movedOn before.length (moves.length - 1) step = step := by
    intro step past
    rw [performance_next, List.length_append, List.length_singleton] at past
    exact if_pos (Nat.lt_succ_iff.mp past)
  rcases accounted.renumber_eq fixed with ⟨state, parts⟩
  rw [List.append_cons, session.performance_append (before ++ [move]),
    session.performance_append (before ++ moves)]
  refine Course.Renumbers.foldl ⟨?next, ?state, ?parts⟩ (movedOn_injective _ _) session later
  case next =>
    intro steps
    rw [moved, stopped]
    simp only [List.length_singleton, next]
    rw [movedOn, if_neg (by omega)]
    omega
  case state =>
    rw [state, moved, stopped]
  case parts =>
    rw [parts, moved, stopped]

end

/-! ## Timing -/

/--
In a session whose clock shows safe integers and whose delay is a count, each
attempt of a call sees the time of the call and as many delays more as there were
attempts of the call before it. A move of the clock to where it stands does
nothing. Moves of the clock forward come to the same as one: they leave the
session as it would be, with the same messages published in the same order, the
same attempts made at the same times, and the same calls ended in the same way,
once each call has the number of the step that made it.
-/
theorem retry_timing_isolated
    {session : Session}
    (count : session.profile.settings.retry.delay.isCount = true)
    (clock : Binary64) :
    (∀ earlier change feed later,
      session.KeepsWholeTime (earlier ++ ⟨.change change, feed⟩ :: later) clock →
        let reports := session.perform 0 (earlier ++ ⟨.change change, feed⟩ :: later)
          (.initial clock)
        let attempts := (reports.flatMap (·.trace.attempted)).filter
          (·.call == earlier.length)
        ∀ (retried : Nat) (attempt : Attempt), attempts[retried]? = some attempt →
          ∃ start, (session.after 0 earlier (.initial clock)).clock.toInt? = some start ∧
            attempt.clock.toInt? =
              some (start + retried * session.profile.settings.retry.delay.toNat)) ∧
      (∀ cues, session.KeepsWholeTime cues clock →
        let state := session.after 0 cues (.initial clock)
        session.setClock state.clock state = (state, .empty)) ∧
      ∀ before move moves later target,
        Forward (session.after 0 before (.initial clock)).clock [move] target →
        Forward (session.after 0 before (.initial clock)).clock moves target →
          let number := movedOn before.length (moves.length - 1)
          let once := before ++ move :: later
          let often := before ++ moves ++ later.map (·.renumber number)
          let onceReports := session.perform 0 once (.initial clock)
          let oftenReports := session.perform 0 often (.initial clock)
          session.after 0 often (.initial clock) =
              (session.after 0 once (.initial clock)).renumber number ∧
            oftenReports.flatMap (·.trace.published) =
              (onceReports.flatMap (·.trace.published)).map (·.renumber number) ∧
            oftenReports.flatMap (·.trace.attempted) =
              (onceReports.flatMap (·.trace.attempted)).map (·.renumber number) ∧
            (allEndings oftenReports).Perm
              ((allEndings onceReports).map (Prod.map number id)) := by
  refine ⟨?punctual, ?stays, ?moves⟩
  case punctual =>
    intro earlier change feed later whole reports attempts retried attempt tried
    exact timely_of_attempted count whole tried
  case stays =>
    intro cues whole state
    exact session.setClock_of_rests (rests_after count whole)
  case moves =>
    intro before move moves later target single several number once often onceReports oftenReports
    have renumbers := session.performance_moves single several later
    have first := session.performance_follows once clock
    have second := session.performance_follows often clock
    have told : (session.performance often clock).trace =
        (session.performance once clock).trace.renumber number := by
      unfold Course.trace
      rw [Trace.renumber_join, renumbers.parts]
    refine ⟨?state, ?published, ?attempted, ?ended⟩
    case state =>
      rw [← performance_state, ← performance_state]
      exact renumbers.state
    case published =>
      rw [← second.published, ← first.published, told]
      rfl
    case attempted =>
      rw [← second.attempted, ← first.attempted, told]
      rfl
    case ended =>
      refine second.ended.symm.trans ?_
      rw [told]
      exact first.ended.map _

/--
A call made at 500 and refused twice sees 500, 1500 and 2500, although the clock is
moved back in between, and a stop at 1700 on the way to 3000 changes nothing.
-/
theorem retry_timing_isolated_backwards :
    let session : Session :=
      ⟨⟨{ Settings.standard with retry := ⟨3, 1000⟩ }, .plain, .owner "alice"⟩,
        fun number => number ≤ 2, []⟩
    let earlier : List Cue := [⟨.setClock 500, []⟩]
    let before : List Cue := earlier ++ [⟨.change (.increment "k" 1), []⟩, ⟨.setClock 200, []⟩]
    let once := before ++ [⟨.setClock 3000, []⟩, ⟨.change (.increment "k" 1), []⟩]
    let often := before ++ [⟨.setClock 1700, []⟩, ⟨.adjustClock 1300, []⟩] ++
      [⟨.change (.increment "k" 1), []⟩]
    let onceReports := session.perform 0 once (.initial 0)
    let oftenReports := session.perform 0 often (.initial 0)
    onceReports.flatMap (·.trace.attempted) = [⟨1, 500⟩, ⟨1, 1500⟩, ⟨1, 2500⟩, ⟨4, 3000⟩] ∧
      (2500 : Binary64).toInt? = some (500 + (2 : Nat) * 1000) ∧
      session.setClock 3000 (session.after 0 once (.initial 0)) =
        (session.after 0 once (.initial 0), .empty) ∧
      oftenReports.flatMap (·.trace.attempted) =
        (onceReports.flatMap (·.trace.attempted)).map (·.renumber (movedOn 3 1)) := by
  intro session earlier before once often onceReports oftenReports
  have count : session.profile.settings.retry.delay.isCount = true := by decide +kernel
  have attempted : onceReports.flatMap (·.trace.attempted) =
      [⟨1, 500⟩, ⟨1, 1500⟩, ⟨1, 2500⟩, ⟨4, 3000⟩] := by decide +kernel
  have whole : session.KeepsWholeTime once 0 := by
    unfold KeepsWholeTime
    decide +kernel
  have stands : (session.after 0 before (.initial 0)).clock = 200 := by decide +kernel
  have single : Forward 200 [⟨.setClock 3000, []⟩] 3000 := .once rfl (by decide +kernel)
  have several : Forward 200 [⟨.setClock 1700, []⟩, ⟨.adjustClock 1300, []⟩] 3000 :=
    .first rfl (by decide +kernel) (.once (by decide +kernel) (by decide +kernel))
  rw [← stands] at single several
  have timing := retry_timing_isolated count 0
  refine ⟨attempted, ?_, ?_, ?_⟩
  · rcases timing.1 earlier (.increment "k" 1) [] _ whole 2 ⟨1, 2500⟩ (by decide +kernel) with
      ⟨start, begun, time⟩
    have started : start = 500 := Option.some.inj (begun.symm.trans (by decide +kernel))
    have delay : session.profile.settings.retry.delay.toNat = 1000 := by decide +kernel
    rw [time, started, delay]
    rfl
  · have ended : (session.after 0 once (.initial 0)).clock = 3000 := by decide +kernel
    have stays := timing.2.1 once whole
    dsimp only at stays
    rwa [ended] at stays
  · exact (timing.2.2 before _ _ [⟨.change (.increment "k" 1), []⟩] 3000 single several).2.2.1

end ConvergentStore.Session
