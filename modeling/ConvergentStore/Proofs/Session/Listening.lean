import ConvergentStore.Proofs.Replica.Feed
import ConvergentStore.Session.Step

/-!
# Listening in sessions

A message that cannot be used is noise: it leaves the replica of a session as
it was, and nothing is published on account of it. A listener goes on after
noise, with one exception: a message whose fault cannot be described breaks it,
and what comes after that message is lost (`noise_silences_listener`). So what
is to hold of noise holds where no message breaks the listener, and
`bad_messages_are_noise` says that it holds nowhere else.
-/

namespace ConvergentStore.Session

/-- Messages that arrive leave what a session publishes alone. -/
theorem step_inbound_trace
    (session : Session)
    (index : Nat)
    (message : Message)
    (state : State) :
    (session.step index (.inbound message) state).trace.attempted = [] ∧
      (session.step index (.inbound message) state).trace.published = [] := by
  unfold Session.step
  dsimp only
  split <;> exact ⟨rfl, rfl⟩

/-- A message that is applied has the effect of its operation, and another one has none. -/
theorem step_inbound
    (session : Session)
    (index : Nat)
    (message : Message)
    (state : State) :
    (∃ operation,
      (session.step index (.inbound message) state).answer =
          .arrival (.ok (.applied operation)) ∧
        state.replica.apply operation =
          .ok (session.step index (.inbound message) state).state.replica) ∨
      (∀ operation,
        (session.step index (.inbound message) state).answer ≠
          .arrival (.ok (.applied operation))) ∧
        (session.step index (.inbound message) state).state.replica = state.replica := by
  have ingested := session.profile.ingested message state.replica
  unfold Session.step
  dsimp only
  generalize session.profile.ingest message state.replica = result at ingested ⊢
  cases ingested with
  | ignored screened => exact .inr ⟨fun _ => nofun, rfl⟩
  | failed screened extracted => exact .inr ⟨fun _ => nofun, rfl⟩
  | applied screened extracted accepted => exact .inl ⟨_, rfl, accepted⟩
  | refused screened extracted declined => exact .inr ⟨fun _ => nofun, rfl⟩

/--
A message that is applied changes the replica as its operation does, and only
under the key of the operation; any other message changes nothing. A listener
hears a feed out exactly when no message of it breaks the listener, and
otherwise it has what the messages before the first such one have left. Nothing
is published either way. Over a stock of messages noise changes nothing that a
listener takes in exactly when none of them breaks the listener, or all of them
are noise.
-/
theorem bad_messages_are_noise (session : Session) (index : Nat) (state : State) :
    (∀ message,
      let report := session.step index (.inbound message) state
      (∀ operation, report.answer = .arrival (.ok (.applied operation)) →
        state.replica.apply operation = .ok report.state.replica ∧
          Replica.ChangesOnly operation state.replica report.state.replica) ∧
      ((∀ operation, report.answer ≠ .arrival (.ok (.applied operation))) →
        report.state.replica = state.replica) ∧
      report.trace.attempted = [] ∧ report.trace.published = []) ∧
    (∀ feed,
      let report := { session with feed }.step index .listen state
      let hearing := session.profile.hear .attentive feed state.replica
      (report.answer = .done ∧
        report.state.replica = hearing.replica ∧
        report.trace.events = .listening :: hearing.events ∧
        report.trace.attempted = [] ∧ report.trace.published = []) ∧
      (session.profile.HeardOut feed state.replica hearing ↔
        ∀ message ∈ feed, session.profile.breaks message = false) ∧
      ∀ heard bad rest,
        feed = heard ++ bad :: rest →
        (∀ message ∈ heard, session.profile.breaks message = false) →
        session.profile.breaks bad = true →
          let before := session.profile.hear .attentive heard state.replica
          hearing = ⟨.broken, before.replica, before.events ++ [.collapsed, .collapsed]⟩) ∧
    ∀ stock : Message → Prop,
      (∀ feed noisy, (∀ message ∈ noisy, stock message) →
        session.profile.Noisy feed noisy → ∀ replica,
          (session.profile.hear .attentive noisy replica).replica =
            (session.profile.hear .attentive feed replica).replica) ↔
        (∀ message, stock message → session.profile.breaks message = false) ∨
          ∀ message, stock message → session.profile.Noise message := by
  refine ⟨?_, ?_, session.profile.noise_changes_nothing_iff⟩
  · intro message report
    refine ⟨?_, ?_, session.step_inbound_trace index message state⟩
    · intro operation answered
      rcases session.step_inbound index message state with
        ⟨other, applied, accepted⟩ | ⟨unapplied, _⟩
      · rw [applied] at answered
        cases answered
        exact ⟨accepted, Replica.changesOnly_of_apply accepted⟩
      · exact absurd answered (unapplied operation)
    · intro unapplied
      rcases session.step_inbound index message state with ⟨operation, applied, _⟩ | ⟨_, same⟩
      · exact absurd applied (unapplied operation)
      · exact same
  · intro feed report hearing
    refine ⟨⟨rfl, rfl, rfl, rfl, rfl⟩, session.profile.heardOut_iff feed state.replica, ?_⟩
    rintro heard bad rest rfl sound broken
    exact Profile.absorbAll_of_breaks sound broken rest state.replica

/-- Noise whose fault cannot be described, before a message that could be used. -/
theorem noise_silences_listener :
    let profile : Profile := ⟨.standard, .plain, .unavailable⟩
    let bad : Message :=
      ⟨"f1", 1, "peer",
        "\x7b\"GSet\":\x7b\"key\":\x7b\"constructor\":\x7b\"name\":" ++
          "\x7b\"toString\":1\x7d\x7d\x7d\x7d\x7d",
        [["t", "nostr-crdt"]]⟩
    let good : Message :=
      ⟨"f2", 1, "peer", "\x7b\"GCounter\":\x7b\"key\":\"c\",\"increment\":3\x7d\x7d",
        [["t", "nostr-crdt"]]⟩
    profile.Noisy [good] [bad, good] ∧
      (profile.hear .attentive [good] .empty).replica.counters.read? "c" = some 3 ∧
      (profile.hear .attentive [bad, good] .empty).listener = .broken ∧
      (profile.hear .attentive [bad, good] .empty).replica.counters.read? "c" = none := by
  intro profile bad good
  have noise : profile.decoded? bad = none := by decide +kernel
  exact ⟨.noise (Profile.noise_iff.mpr noise) (.message good .nil), by decide +kernel,
    by decide +kernel, by decide +kernel⟩

end ConvergentStore.Session
