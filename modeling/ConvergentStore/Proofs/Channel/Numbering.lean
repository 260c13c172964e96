import ConvergentStore.Proofs.Channel.Gathering
import ConvergentStore.Proofs.Number.Numerals
import ConvergentStore.Proofs.Number.WholePart
import Mathlib.Data.List.Forall2

/-!
# Numbers on a hub

A hub gives the numbers from one on to endpoints and publications, each number
once (`Numbered`). Where its counter is a binary64 number, it counts up to
`2 ^ 53` and stands still there (`Binary64.counted_eq`). While there are fewer
endpoints and publications than that, the counter shows another number for each
of them, and no two publications have the same identifier, whatever the senders
are called (`identifiers_unique`).
-/

namespace ConvergentStore

-- Powers of natural numbers are the same under every import.
attribute [local instance(high)] instPowNat

/-! ## Counters -/

namespace Binary64

/-- What a counter of binary64 numbers shows after it was raised so many times from zero. -/
def counted : Nat → Binary64
  | 0 => 0
  | times + 1 => counted times + 1

/-- One more than `2 ^ 53` lies halfway between two numbers of the format, and goes to the even one. -/
theorem ofNat_two_pow_add_one : ofNat (2 ^ 53) + 1 = ofNat (2 ^ 53) := by
  decide +kernel

/-- A counter shows how often it was raised, up to `2 ^ 53`, and stands still there. -/
theorem counted_eq (times : Nat) : counted times = ofNat (min times (2 ^ 53)) := by
  induction times with
  | zero => rfl
  | succ times ih =>
      rw [counted, ih]
      rcases Nat.lt_or_ge times (2 ^ 53) with small | large
      · rw [Nat.min_eq_left small.le, Nat.min_eq_left small]
        exact ofNat_add_one small
      · rw [Nat.min_eq_right large, Nat.min_eq_right (Nat.le_succ_of_le large)]
        exact ofNat_two_pow_add_one

/-- A counter shows another number each time that it is raised up to `2 ^ 53`, and no other after. -/
theorem counted_eq_counted_iff {left right : Nat} :
    counted left = counted right ↔ min left (2 ^ 53) = min right (2 ^ 53) := by
  rw [counted_eq, counted_eq]
  constructor
  · intro same
    have whole := congrArg toNat same
    rw [toNat_ofNat (Nat.min_le_right _ _), toNat_ofNat (Nat.min_le_right _ _)] at whole
    exact whole
  · exact congrArg ofNat

/-- What a counter shows below `2 ^ 53` is written as the numeral of how often it was raised. -/
theorem toText_counted {times : Nat} (small : times < 2 ^ 53) :
    (counted times).toText = Nat.repr times := by
  have safe : (ofNat times).isCount = true := isCount_ofNat (Nat.le_sub_one_of_lt small)
  rw [counted_eq, Nat.min_eq_left small.le, toText_of_isCount safe, toNat_ofNat small.le]
  rfl

end Binary64

namespace Gathering

/-! ## Numbers of endpoints and publications -/

/--
The numbers from one on were given out in turn, each to one endpoint or to one
publication; `numbers` are those of the publications.
-/
structure Numbered (gathering : Gathering) (numbers : List Nat) : Prop where
  named : List.Forall₂
    (fun posting number => posting.id = posting.sender ++ "-" ++ Nat.repr number)
    gathering.postings numbers
  given : (gathering.endpoints.map (·.number) ++ numbers).Perm
    (List.range' 1 gathering.hub.sequence)

theorem Numbered.start : Gathering.start.Numbered [] :=
  ⟨.nil, .refl _⟩

section

variable {gathering : Gathering} {numbers : List Nat}

/-- So many numbers were given out as there are endpoints and publications. -/
theorem Numbered.sequence_eq (numbered : gathering.Numbered numbers) :
    gathering.hub.sequence = gathering.endpoints.length + gathering.postings.length := by
  have lengths := numbered.given.length_eq
  rw [List.length_append, List.length_map, List.length_range',
    ← numbered.named.length_eq] at lengths
  exact lengths.symm

/-- With the next number, all numbers up to that one are given out. -/
theorem Numbered.given_next (numbered : gathering.Numbered numbers) :
    (gathering.endpoints.map (·.number) ++ numbers ++ [gathering.hub.sequence + 1]).Perm
      (List.range' 1 (gathering.hub.sequence + 1)) := by
  rw [List.range'_1_concat, Nat.add_comm 1]
  exact numbered.given.append_right _

theorem Numbered.join
    (numbered : gathering.Numbered numbers)
    (sender : String) :
    (gathering.join sender).Numbered numbers where
  named := numbered.named
  given := by
    -- The numbers of endpoints stand first, so a new one is moved behind those of publications.
    refine List.Perm.trans ?_ numbered.given_next
    show (List.map _ (gathering.endpoints ++ [_]) ++ numbers).Perm _
    rw [List.map_append, List.append_assoc, List.append_assoc]
    exact List.perm_append_comm.append_left _

theorem Numbered.publish
    (numbered : gathering.Numbered numbers)
    (position : Nat)
    (endpoint : Endpoint)
    (outbound : Outbound) :
    (gathering.publish position endpoint outbound).Numbered
      (numbers ++ [gathering.hub.sequence + 1]) where
  named := List.rel_append numbered.named (.cons rfl .nil)
  given := by
    rw [← List.append_assoc]
    exact numbered.given_next

theorem Numbered.kept
    (numbered : gathering.Numbered numbers)
    {later : Gathering}
    (becomes : gathering.Becomes later) :
    ∃ given, later.Numbered given := by
  cases becomes with
  | unchanged => exact ⟨_, numbered⟩
  | joined sender => exact ⟨_, numbered.join sender⟩
  | subscribed => exact ⟨_, numbered.named, numbered.given⟩
  | published _ outbound => exact ⟨_, numbered.publish _ _ outbound⟩
  | received => exact ⟨_, numbered.named, numbered.given⟩

end

theorem numbered_run (moves : List Move) : ∃ numbers, (run moves).Numbered numbers := by
  refine moved_induction
    (motive := fun gathering => ∃ numbers, gathering.Numbered numbers) ⟨[], .start⟩ ?_ moves
  rintro early later ⟨numbers, numbered⟩ becomes
  exact numbered.kept becomes

/-! ## Numbers as the counter shows them -/

section

variable
  {gathering : Gathering}
  {numbers : List Nat}
  (numbered : gathering.Numbered numbers)
  (few : gathering.endpoints.length + gathering.postings.length < 2 ^ 53)

include numbered few

theorem Numbered.lt_two_pow
    {number : Nat}
    (among : number ∈ gathering.endpoints.map (·.number) ++ numbers) :
    number < 2 ^ 53 := by
  have within := List.mem_range'_1.mp (numbered.given.mem_iff.mp among)
  rw [numbered.sequence_eq] at within
  omega

/-- Identifiers are made of what the counter shows. -/
theorem Numbered.named_counted :
    List.Forall₂
      (fun posting number =>
        posting.id = posting.sender ++ "-" ++ (Binary64.counted number).toText)
      gathering.postings numbers := by
  rw [List.forall₂_iff_zip]
  refine ⟨numbered.named.length_eq, ?_⟩
  intro posting number pair
  have among : number ∈ numbers := (List.of_mem_zip pair).2
  rw [Binary64.toText_counted (numbered.lt_two_pow few (List.mem_append_right _ among))]
  exact (List.forall₂_iff_zip.mp numbered.named).2 pair

/-- The counter shows no number twice. -/
theorem Numbered.nodup_counted :
    ((gathering.endpoints.map (·.number) ++ numbers).map Binary64.counted).Nodup := by
  refine List.Nodup.map_on ?_ (numbered.given.nodup_iff.mpr (List.nodup_range' 1))
  intro left leftAmong right rightAmong same
  have leftSmall := numbered.lt_two_pow few leftAmong
  have rightSmall := numbered.lt_two_pow few rightAmong
  rw [Binary64.counted_eq_counted_iff, Nat.min_eq_left leftSmall.le,
    Nat.min_eq_left rightSmall.le] at same
  exact same

end

/--
No two publications on a hub have the same identifier and no two endpoints the
same number, whatever the senders are called. The numbers from one on are given
out without gaps, each to one endpoint or publication. While there are fewer than
`2 ^ 53` of these, the binary64 numbers that the counter shows for them differ as
well, and these are what the identifiers are made of.
-/
theorem identifiers_unique
    {moves : List Move}
    (few : (run moves).endpoints.length + (run moves).postings.length < 2 ^ 53) :
    let final := run moves
    (final.postings.map (·.id)).Nodup ∧
      (final.endpoints.map (·.number)).Nodup ∧
      ∃ numbers : List Nat,
        List.Forall₂
          (fun posting number =>
            posting.id = posting.sender ++ "-" ++ (Binary64.counted number).toText)
          final.postings numbers ∧
        (final.endpoints.map (·.number) ++ numbers).Perm
          (List.range' 1 (final.endpoints.length + final.postings.length)) ∧
        ((final.endpoints.map (·.number) ++ numbers).map Binary64.counted).Nodup := by
  intro final
  have sound : final.Sound := sound_run moves
  obtain ⟨numbers, numbered⟩ : ∃ numbers, final.Numbered numbers := numbered_run moves
  have given := numbered.given
  rw [numbered.sequence_eq] at given
  exact ⟨sound.distinct, sound.apart, numbers, numbered.named_counted few, given,
    numbered.nodup_counted few⟩

/-- Senders with dashes and digits in their names, which look like identifiers of others. -/
theorem identifiers_unique_dashes :
    let moves : List Move :=
      [.join "a", .join "a-1", .publish 1 ⟨1, "first", []⟩, .join "a",
        .publish 0 ⟨1, "next", []⟩, .join "a-1-3", .publish 2 ⟨1, "last", []⟩]
    let final := run moves
    final.endpoints.length + final.postings.length < 2 ^ 53 ∧
      final.postings.map (·.id) = ["a-1-3", "a-5", "a-7"] ∧
      final.endpoints.map (·.number) = [1, 2, 4, 6] ∧
      (final.postings.map (·.id)).Nodup ∧
      (final.endpoints.map (·.number)).Nodup := by
  intro moves final
  have few : final.endpoints.length + final.postings.length < 2 ^ 53 := by decide +kernel
  have unique := identifiers_unique few
  exact ⟨few, by decide +kernel, by decide +kernel, unique.1, unique.2.1⟩

end Gathering

end ConvergentStore
