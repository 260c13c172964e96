import ConvergentStore.Proofs.Replica.Growth
import ConvergentStore.Proofs.Session.History

/-!
# Growth over the life of a session

Whatever is done with a session, and whatever becomes of it, its replica stays
sound and only grows: what it holds at one time is there at every later time.
-/

namespace ConvergentStore.Session

/--
Over the life of a session every replica is sound, and of two of them the later
one has grown out of the earlier one.
-/
theorem replicas_grow
    (session : Session)
    (cues : List Cue)
    (clock : Binary64) :
    let replicas := Replica.empty ::
      (session.perform 0 cues (.initial clock)).map (·.state.replica)
    (∀ replica ∈ replicas, replica.Sound) ∧ replicas.Pairwise Replica.Grows := by
  intro replicas
  have reachable : ∀ replica ∈ replicas, replica.Reachable := by
    intro replica member
    rcases List.mem_cons.mp member with rfl | later
    · exact Replica.reachable_empty
    · rcases List.mem_map.mp later with ⟨report, reported, rfl⟩
      exact session.perform_reachable cues clock report reported
  constructor
  · intro replica member
    exact (reachable replica member).sound
  · refine List.Pairwise.imp_of_mem ?_ (session.pairwise_precedes 0 cues (.initial clock))
    intro earlier later member _ precedes
    exact (reachable earlier member).grows precedes

end ConvergentStore.Session
