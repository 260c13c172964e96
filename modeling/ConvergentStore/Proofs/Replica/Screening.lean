import ConvergentStore.Proofs.Number.Order
import ConvergentStore.Proofs.Replica.Acceptance

/-!
# Filters and screening

A replica chooses its messages twice: a channel delivers what its filter admits,
and of that it passes over what its screening finds. Both look for its kind and
its marker, but the filter searches for the kind and screening compares it, and
these differ for a kind that is `nan`. So filter and screening agree on every
message exactly when the kind is a number (`screening_agrees`). A replica whose
kind is `nan` passes everything over, and in silence, also what its peers publish
for it and its own filter lets through.
-/

namespace ConvergentStore

theorem Hearing.preceded_nil (hearing : Hearing) : hearing.preceded [] = hearing :=
  rfl

namespace Profile

/-- A replica passes a message over: it answers that the message is ignored. -/
def PassesOver (profile : Profile) (message : Message) (replica : Replica) : Prop :=
  ∃ reason next, profile.ingest message replica = .ok (.ignored reason, next)

section

variable (profile : Profile) (message : Message) (replica : Replica)

/-- A message is passed over for its kind or for want of the marker, whatever the replica holds. -/
theorem not_passesOver_iff :
    ¬ profile.PassesOver message replica ↔
      message.kind.equals profile.settings.kind = true ∧
        message.tags.hasHashtag profile.settings.marker = true := by
  rw [← screen_eq_none_iff]
  have ingested := profile.ingested message replica
  constructor
  · intro taken
    cases screened : profile.screen message with
    | none => rfl
    | some reason =>
        refine absurd ⟨reason, replica, ?_⟩ taken
        rw [ingest, screened]
  · rintro screened ⟨reason, next, ignored⟩
    rw [ignored] at ingested
    cases ingested with
    | ignored found =>
        rw [screened] at found
        cases found

/-- The filter of a replica admits a message if it finds the kind and the marker in it. -/
theorem admits_filter_iff :
    profile.filter.admits message = true ↔
      profile.settings.kind.sameValue message.kind = true ∧
        message.tags.hasHashtag profile.settings.marker = true := by
  simp [Filter.admits, filter]

variable {message replica}

/-- What is not passed over is let through, whatever the kind is. -/
theorem admits_of_not_passesOver (taken : ¬ profile.PassesOver message replica) :
    profile.filter.admits message = true := by
  rcases (not_passesOver_iff profile message replica).mp taken with ⟨known, marked⟩
  rw [Binary64.equals_comm] at known
  exact (admits_filter_iff profile message).mpr ⟨Binary64.sameValue_iff.mpr (.inr known), marked⟩

/-- What is let through is passed over only if both kinds are no numbers. -/
theorem isNaN_of_passesOver
    (admitted : profile.filter.admits message = true)
    (passed : profile.PassesOver message replica) :
    profile.settings.kind.isNaN = true ∧ message.kind.isNaN = true := by
  rcases (admits_filter_iff profile message).mp admitted with ⟨found, marked⟩
  rcases Binary64.sameValue_iff.mp found with none | known
  · exact none
  · rw [Binary64.equals_comm] at known
    exact absurd passed ((not_passesOver_iff profile message replica).mpr ⟨known, marked⟩)

theorem passesOver_of_isNaN
    (none : profile.settings.kind.isNaN = true)
    (message : Message)
    (replica : Replica) :
    profile.PassesOver message replica := by
  by_contra taken
  have known := ((not_passesOver_iff profile message replica).mp taken).1
  rw [Binary64.equals_iff, none] at known
  exact nomatch known.2.1

/-- A message that is passed over leaves no trace with a listener. -/
theorem absorb_of_passesOver (passed : profile.PassesOver message replica) :
    profile.absorb message replica = ⟨.attentive, replica, []⟩ := by
  rcases passed with ⟨reason, next, ignored⟩
  have ingested := profile.ingested message replica
  rw [ignored] at ingested
  rw [absorb, ignored]
  cases ingested with
  | ignored screened => rfl

/-- A listener makes the same of what the filter admits as of everything. -/
theorem absorbAll_admitted (messages : List Message) (replica : Replica) :
    profile.absorbAll (messages.filter profile.filter.admits) replica =
      profile.absorbAll messages replica := by
  induction messages generalizing replica with
  | nil => rfl
  | cons message rest ih =>
      by_cases admitted : profile.filter.admits message = true
      · rw [List.filter_cons_of_pos admitted, absorbAll, absorbAll]
        simp only [ih]
      · have passed : profile.PassesOver message replica :=
          by_contra fun taken => admitted (profile.admits_of_not_passesOver taken)
        rw [List.filter_cons_of_neg admitted, absorbAll, absorb_of_passesOver profile passed, ih]
        exact (Hearing.preceded_nil _).symm

end

/--
How far filter and screening agree. What the filter holds back would be passed
over, so that a listener makes the same of the messages that are let through as
of all of them. If the kind is a number, then the messages that are let through
are those that are not passed over, and with a kind that is `nan` all messages are
passed over, those that are let through among them. What is published under the
same kind and marker is always let through; it is passed over if that kind is
`nan`, and only then.
-/
theorem screening_agrees (profile : Profile) :
    (∀ messages replica,
      profile.absorbAll (messages.filter profile.filter.admits) replica =
        profile.absorbAll messages replica) ∧
    (∀ message replica, ¬ profile.PassesOver message replica →
      profile.filter.admits message = true) ∧
    (profile.settings.kind.isNaN = false → ∀ message replica,
      (profile.filter.admits message = true ↔ ¬ profile.PassesOver message replica)) ∧
    (profile.settings.kind.isNaN = true → ∀ message replica,
      (profile.filter.admits message = true ↔
          message.kind.isNaN = true ∧
            message.tags.hasHashtag profile.settings.marker = true) ∧
        profile.PassesOver message replica ∧
        profile.absorb message replica = ⟨.attentive, replica, []⟩) ∧
    ∀ (maker : Profile) operation outbound,
      maker.settings.kind = profile.settings.kind →
      maker.settings.marker = profile.settings.marker →
      maker.prepare operation = .ok outbound →
      ∀ id sender replica,
        profile.filter.admits (outbound.toMessage id sender) = true ∧
          (profile.PassesOver (outbound.toMessage id sender) replica ↔
            profile.settings.kind.isNaN = true) := by
  refine ⟨profile.absorbAll_admitted, fun _ _ => profile.admits_of_not_passesOver,
    ?number, ?none, ?published⟩
  case number =>
    intro number message replica
    refine ⟨fun admitted passed => ?_, profile.admits_of_not_passesOver⟩
    rw [(profile.isNaN_of_passesOver admitted passed).1] at number
    cases number
  case none =>
    intro none message replica
    have passed := profile.passesOver_of_isNaN none message replica
    refine ⟨?_, passed, profile.absorb_of_passesOver passed⟩
    rw [admits_filter_iff, Binary64.sameValue_iff, Binary64.equals_iff, none]
    simp
  case published =>
    intro maker operation outbound kind marker made id sender replica
    rcases outbound_of_prepare made with ⟨content, rfl⟩
    have admitted : profile.filter.admits
        ((maker.outbound operation content).toMessage id sender) = true := by
      rw [admits_filter_iff, Binary64.sameValue_iff]
      simp only [outbound, Outbound.toMessage, kind, marker, Binary64.equals_self_iff, and_self]
      exact ⟨Bool.eq_false_or_eq_true _, by simp [Tags.hasHashtag]⟩
    exact ⟨admitted, fun passed => (profile.isNaN_of_passesOver admitted passed).1,
      fun none => profile.passesOver_of_isNaN none _ _⟩

/-- A peer with another cipher is let have what is published under a number, and takes it up. -/
theorem screening_agrees_published :
    let maker : Profile := ⟨.standard, .plain, .owner "a"⟩
    let peer : Profile := ⟨.standard, .sealing, .unavailable⟩
    let absent : Profile := ⟨{ Settings.standard with kind := .nan }, .plain, .unavailable⟩
    ∃ outbound, maker.prepare (.setAdd "k" "e") = .ok outbound ∧
      peer.filter.admits (outbound.toMessage "a-3" "a") = true ∧
        ¬ peer.PassesOver (outbound.toMessage "a-3" "a") .empty ∧
          absent.PassesOver (outbound.toMessage "a-3" "a") .empty := by
  intro maker peer absent
  have number : peer.settings.kind.isNaN = false := by decide +kernel
  have made : ∃ outbound, maker.prepare (.setAdd "k" "e") = .ok outbound :=
    ⟨_, prepare_eq_ok rfl trivial rfl⟩
  rcases made with ⟨outbound, made⟩
  have admitted := ((screening_agrees peer).2.2.2.2 maker _ _ rfl rfl made "a-3" "a" .empty).1
  exact ⟨outbound, made, admitted,
    ((screening_agrees peer).2.2.1 number _ .empty).mp admitted,
    ((screening_agrees absent).2.2.2.1 rfl _ .empty).2.1⟩

/-- Under a kind that is `nan` a replica publishes what it lets through and yet passes over. -/
theorem published_passed_over :
    let profile : Profile := ⟨{ Settings.standard with kind := .nan }, .plain, .owner "b"⟩
    let message : Message :=
      ⟨"b-4", .nan, "b",
        "\x7b\"GSet\":\x7b\"key\":\"k\",\"value\":\"e\",\"action\":\"Add\"\x7d\x7d",
        [["c", "crdt", "gset"], ["t", "nostr-crdt"]]⟩
    (∃ outbound, profile.prepare (.setAdd "k" "e") = .ok outbound ∧
        outbound.toMessage "b-4" "b" = message) ∧
      profile.filter.admits message = true ∧
        profile.PassesOver message .empty := by
  intro profile message
  exact ⟨⟨_, prepare_eq_ok rfl trivial rfl, by decide +kernel⟩, by decide +kernel,
    .kind .nan, .empty, rfl⟩

end Profile

end ConvergentStore
