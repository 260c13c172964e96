import ConvergentStore.Proofs.Number.Order
import ConvergentStore.Proofs.Replica.History
import Mathlib.Data.List.Nodup

/-!
# Growth of replicas

Operations only ever add to a replica. Under every key that holds something, a
register comes to hold a later write or keeps the one it has, a counter comes
to hold a total that is not smaller, and a set lists what it listed and perhaps
more after it. A refused operation changes nothing, so the same holds of every
history, and `Reachable.grows` says so.
-/

namespace ConvergentStore

open Binary64 (largestSafe)

/-! ## Registers -/

namespace Register

/-- Every timestamp is a count. -/
def Stamped (register : Register) : Prop :=
  ∀ key entry, register.entry? key = some entry → entry.timestamp.isCount = true

theorem stamped_replay (operations : List Operation) :
    Stamped (Replicated.replay operations empty) := by
  intro key entry held
  have left := leaves_replay operations key
  rw [held] at left
  exact left.1

/--
What was stored is still stored, or a later write is; a write with an equal
timestamp is the one that was stored.
-/
def Grows (earlier later : Register) : Prop :=
  ∀ key stored, earlier.entry? key = some stored →
    ∃ kept, later.entry? key = some kept ∧
      stored.timestamp.le kept.timestamp = true ∧
      (stored.timestamp.equals kept.timestamp = true → kept = stored)

theorem Stamped.grows_self
    {register : Register}
    (stamped : register.Stamped) :
    register.Grows register := by
  intro key stored held
  exact ⟨stored, held, Binary64.le_self_of_isCount (stamped key stored held), fun _ => rfl⟩

theorem Grows.trans
    {first second third : Register}
    (before : first.Grows second)
    (after : second.Grows third) :
    first.Grows third := by
  intro key stored held
  rcases before key stored held with ⟨middle, middleHeld, notEarlier, unchanged⟩
  rcases after key middle middleHeld with ⟨kept, keptHeld, stillNotEarlier, stillUnchanged⟩
  refine ⟨kept, keptHeld, Binary64.le_trans notEarlier stillNotEarlier, ?_⟩
  intro ends
  have between := Binary64.equals_of_between notEarlier stillNotEarlier ends
  exact (stillUnchanged between.2).trans (unchanged between.1)

theorem grows_write
    {register : Register}
    (stamped : register.Stamped)
    (key : String)
    (incoming : Entry) :
    register.Grows (register.write key incoming) := by
  intro sought stored held
  by_cases here : key = sought
  · subst here
    simp only [write, held, Entry.supersedes]
    split
    · next later =>
        refine ⟨incoming, by simp [Register.entry?, Table.get?_put], Binary64.le_of_lt later, ?_⟩
        exact fun equal => absurd equal (Binary64.not_equals_of_lt later)
    · exact stamped.grows_self key stored held
  · rw [entry?_write_of_ne register incoming here]
    exact stamped.grows_self sought stored held

theorem grows_commit
    {register : Register}
    (stamped : register.Stamped)
    (operation : Operation) :
    register.Grows (Replicated.commit operation register).2 := by
  cases operation with
  | registerSet key value timestamp =>
      rw [commit_registerSet]
      split
      · exact grows_write stamped key _
      · exact stamped.grows_self
  | counterIncrement => exact stamped.grows_self
  | setAdd => exact stamped.grows_self

end Register

/-! ## Counters -/

namespace Counter

theorem Whole.isCount
    {counter : Counter}
    (whole : counter.Whole)
    {key : String}
    {total : Binary64}
    (held : counter.read? key = some total) :
    total.isCount = true := by
  rcases whole key total held with ⟨n, small, rfl⟩
  exact Binary64.isCount_ofNat small

/-- What was counted is still counted, and no total is smaller than it was. -/
def Grows (earlier later : Counter) : Prop :=
  ∀ key total, earlier.read? key = some total →
    ∃ raised, later.read? key = some raised ∧ total.le raised = true

theorem Whole.grows_self
    {counter : Counter}
    (whole : counter.Whole) :
    counter.Grows counter := by
  intro key total held
  exact ⟨total, held, Binary64.le_self_of_isCount (whole.isCount held)⟩

theorem Grows.trans
    {first second third : Counter}
    (before : first.Grows second)
    (after : second.Grows third) :
    first.Grows third := by
  intro key total held
  rcases before key total held with ⟨middle, middleHeld, notSmaller⟩
  rcases after key middle middleHeld with ⟨raised, raisedHeld, stillNotSmaller⟩
  exact ⟨raised, raisedHeld, Binary64.le_trans notSmaller stillNotSmaller⟩

/-- A total to which an amount is added within the safe range is not smaller afterwards. -/
theorem grows_put
    {counter : Counter}
    (whole : counter.Whole)
    (key : String)
    {amount : Nat}
    (room : counter.total key + amount ≤ largestSafe) :
    counter.Grows ⟨counter.totals.put key (.ofNat (counter.total key + amount))⟩ := by
  intro sought total held
  by_cases here : key = sought
  · subst here
    refine ⟨.ofNat (counter.total key + amount), by simp [read?, Table.get?_put], ?_⟩
    have count := whole.isCount held
    rw [Binary64.le_iff_toNat_le count (Binary64.isCount_ofNat room),
      Binary64.toNat_ofNat (room.trans Binary64.largestSafe_le)]
    simp only [Counter.total, held, Option.getD_some]
    exact Nat.le_add_right _ _
  · refine ⟨total, ?_, Binary64.le_self_of_isCount (whole.isCount held)⟩
    rw [← held]
    simp [read?, Table.get?_put, here]

theorem grows_commit
    {counter : Counter}
    (whole : counter.Whole)
    (operation : Operation) :
    counter.Grows (Replicated.commit operation counter).2 := by
  cases operation with
  | registerSet => exact whole.grows_self
  | setAdd => exact whole.grows_self
  | counterIncrement key amount =>
      by_cases count : amount.isCount = true
      · rw [commit_counterIncrement whole count]
        split
        · next room => exact grows_put whole key room
        · exact whole.grows_self
      · rw [commit_of_not_isCount count]
        exact whole.grows_self

end Counter

/-! ## Sets -/

namespace GrowSet

/-- Every listing has an element, and none has one twice. -/
def Distinct (set : GrowSet) : Prop :=
  ∀ key elements, set.read? key = some elements → elements ≠ [] ∧ elements.Nodup

theorem Distinct.add
    {set : GrowSet}
    (distinct : set.Distinct)
    (key element : String) :
    Distinct (set.add key element) := by
  simp only [GrowSet.add]
  split
  · exact distinct
  · next unlisted =>
      intro sought elements held
      simp only [read?, Table.get?_put] at held
      split at held
      · cases held
        refine ⟨List.append_ne_nil_of_right_ne_nil _ (List.cons_ne_nil _ _), ?_⟩
        have before : ((set.read? key).getD []).Nodup := by
          cases listed : set.read? key with
          | none => exact List.nodup_nil
          | some elements => exact (distinct key elements listed).2
        rw [List.contains_eq_mem, decide_eq_true_eq] at unlisted
        rw [← List.concat_eq_append]
        exact before.concat unlisted
      · exact distinct sought elements held

theorem distinct_replay (operations : List Operation) :
    Distinct (Replicated.replay operations empty) := by
  induction operations using List.reverseRecOn with
  | nil =>
      intro key elements held
      cases held
  | append_singleton earlier last ih =>
      rw [Replicated.replay_concat]
      cases last with
      | registerSet => exact ih
      | counterIncrement => exact ih
      | setAdd key element => exact ih.add key element

/-- What was listed is still listed, in the same order and before anything else. -/
def Grows (earlier later : GrowSet) : Prop :=
  ∀ key elements, earlier.read? key = some elements →
    ∃ longer, later.read? key = some longer ∧ elements <+: longer

theorem grows_self (set : GrowSet) : set.Grows set :=
  fun _ elements held => ⟨elements, held, List.prefix_rfl⟩

theorem Grows.trans
    {first second third : GrowSet}
    (before : first.Grows second)
    (after : second.Grows third) :
    first.Grows third := by
  intro key elements held
  rcases before key elements held with ⟨middle, middleHeld, start⟩
  rcases after key middle middleHeld with ⟨longer, longerHeld, further⟩
  exact ⟨longer, longerHeld, start.trans further⟩

theorem grows_add (set : GrowSet) (key element : String) : set.Grows (set.add key element) := by
  simp only [add]
  split
  · exact set.grows_self
  · intro sought elements held
    by_cases here : key = sought
    · subst here
      refine ⟨(set.read? key).getD [] ++ [element], by simp [read?, Table.get?_put], ?_⟩
      rw [held]
      exact List.prefix_append _ _
    · refine ⟨elements, ?_, List.prefix_rfl⟩
      rw [← held]
      simp [read?, Table.get?_put, here]

theorem grows_commit (set : GrowSet) (operation : Operation) :
    set.Grows (Replicated.commit operation set).2 := by
  cases operation with
  | registerSet => exact set.grows_self
  | counterIncrement => exact set.grows_self
  | setAdd key element => exact set.grows_add key element

end GrowSet

/-! ## Replicas -/

namespace Replica

/-- Timestamps and totals are counts, and listings have elements, none of them twice. -/
structure Sound (replica : Replica) : Prop where
  timestamps : ∀ key entry, replica.registers.entry? key = some entry →
    entry.timestamp.isCount = true
  totals : ∀ key total, replica.counters.read? key = some total → total.isCount = true
  listings : ∀ key elements, replica.sets.read? key = some elements →
    elements ≠ [] ∧ elements.Nodup

theorem Reachable.sound
    {replica : Replica}
    (reachable : replica.Reachable) :
    replica.Sound := by
  have whole := reachable.whole
  rcases reachable with ⟨operations, rfl⟩
  constructor
  · rw [replay_eq]
    exact Register.stamped_replay operations
  · intro key total held
    exact whole.isCount held
  · rw [replay_eq]
    exact GrowSet.distinct_replay operations

/-- Nothing that a replica holds is lost in a later one, and no part of it goes back. -/
structure Grows (earlier later : Replica) : Prop where
  registers : earlier.registers.Grows later.registers
  counters : earlier.counters.Grows later.counters
  sets : earlier.sets.Grows later.sets

theorem Grows.trans
    {first second third : Replica}
    (before : first.Grows second)
    (after : second.Grows third) :
    first.Grows third :=
  ⟨before.registers.trans after.registers, before.counters.trans after.counters,
    before.sets.trans after.sets⟩

theorem Reachable.grows_self
    {replica : Replica}
    (reachable : replica.Reachable) :
    replica.Grows replica :=
  ⟨Register.Stamped.grows_self reachable.sound.timestamps, reachable.whole.grows_self,
    replica.sets.grows_self⟩

theorem Reachable.grows_commit
    {replica : Replica}
    (reachable : replica.Reachable)
    (operation : Operation) :
    replica.Grows (replica.commit operation) := by
  rw [commit_eq]
  exact ⟨Register.grows_commit reachable.sound.timestamps operation,
    Counter.grows_commit reachable.whole operation, replica.sets.grows_commit operation⟩

/-- A reachable replica only grows, whatever operations are committed to it. -/
theorem Reachable.grows
    {replica later : Replica}
    (reachable : replica.Reachable)
    (precedes : replica.Precedes later) :
    replica.Grows later := by
  rcases precedes with ⟨operations, rfl⟩
  induction operations using List.reverseRecOn with
  | nil => exact reachable.grows_self
  | append_singleton earlier last ih =>
      rw [replay_concat]
      exact ih.trans ((reachable.of_precedes ⟨earlier, rfl⟩).grows_commit last)

end Replica

end ConvergentStore
