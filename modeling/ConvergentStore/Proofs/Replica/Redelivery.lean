import ConvergentStore.Proofs.Replica.Acceptance
import ConvergentStore.Proofs.Replica.Growth

/-!
# Redelivery

A replica that has taken a write or an addition shows it: under its key stands
that write or one that is not earlier, or the element is listed. It goes on to
show it however it grows (`Dominates.of_grows`), and taking the operation again
changes nothing (`apply_of_dominates`). Nothing shows whether an increment was
taken, and taken again it is added again.
-/

namespace ConvergentStore

open Binary64 (largestSafe)

namespace Replica

/-- Whether a replica shows that an operation was taken. -/
def Dominates (replica : Replica) : Operation → Prop
  | .registerSet key _ timestamp =>
      ∃ stored, replica.registers.entry? key = some stored ∧
        timestamp.le stored.timestamp = true
  | .counterIncrement .. => False
  | .setAdd key element => replica.sets.has key element = true

/-- What a replica shows, it still shows when it has grown. -/
theorem Dominates.of_grows
    {earlier later : Replica}
    {operation : Operation}
    (dominates : earlier.Dominates operation)
    (grows : earlier.Grows later) :
    later.Dominates operation := by
  cases operation with
  | registerSet key value timestamp =>
      rcases dominates with ⟨stored, held, notLater⟩
      rcases grows.registers key stored held with ⟨kept, keptHeld, notEarlier, _⟩
      exact ⟨kept, keptHeld, Binary64.le_trans notLater notEarlier⟩
  | counterIncrement => exact dominates
  | setAdd key element =>
      rcases GrowSet.has_iff.mp dominates with ⟨elements, held, listed⟩
      rcases grows.sets key elements held with ⟨longer, longerHeld, start⟩
      exact GrowSet.has_iff.mpr ⟨longer, longerHeld, start.mem listed⟩

/-- Equal operations are shown alike. -/
theorem Dominates.of_equals
    {replica : Replica}
    {operation arrived : Operation}
    (dominates : replica.Dominates operation)
    (same : arrived.equals operation = true) :
    replica.Dominates arrived := by
  cases operation <;> cases arrived <;>
    simp only [Operation.equals, Bool.and_eq_true, beq_iff_eq, Bool.false_eq_true] at same
  case registerSet.registerSet =>
    rcases same with ⟨⟨rfl, rfl⟩, equal⟩
    rcases dominates with ⟨stored, held, notLater⟩
    exact ⟨stored, held, Binary64.le_trans (Binary64.le_of_equals equal) notLater⟩
  case counterIncrement.counterIncrement => exact dominates
  case setAdd.setAdd =>
    rcases same with ⟨rfl, rfl⟩
    exact dominates

/-- A replica shows the write or the addition that it has just taken. -/
theorem dominates_of_apply
    {replica next : Replica}
    {operation : Operation}
    (reachable : replica.Reachable)
    (accepted : replica.apply operation = .ok next)
    (marked : operation.family ≠ .counter) :
    next.Dominates operation := by
  cases operation with
  | registerSet key value timestamp =>
      have count := Binary64.isCount_iff.mpr (mayTravel_of_apply accepted)
      rw [apply_registerSet replica key value count] at accepted
      cases accepted
      simp only [Dominates, Register.write]
      split
      · exact ⟨⟨value, timestamp⟩, by simp [Register.entry?, Table.get?_put],
          Binary64.le_self_of_isCount count⟩
      · next kept =>
          rcases held : replica.registers.entry? key with _ | stored
          · rw [held] at kept
            exact absurd rfl kept
          · rw [held] at kept
            have storedCount := reachable.sound.timestamps key stored held
            refine ⟨stored, rfl, ?_⟩
            rw [Binary64.le_iff_toNat_le count storedCount]
            rw [Register.Entry.supersedes, Binary64.lt_iff_toNat_lt storedCount count] at kept
            exact not_lt.mp kept
  | counterIncrement => exact absurd rfl marked
  | setAdd key element =>
      rw [apply_setAdd] at accepted
      cases accepted
      exact (GrowSet.has_add _ _ _ _ _).mpr (.inl ⟨rfl, rfl⟩)

/-- A replica that shows an operation takes it again without a change. -/
theorem apply_of_dominates
    {replica : Replica}
    {operation : Operation}
    (dominates : replica.Dominates operation)
    (travels : operation.MayTravel) :
    replica.apply operation = .ok replica := by
  cases operation with
  | registerSet key value timestamp =>
      rcases dominates with ⟨stored, held, notLater⟩
      rw [apply_registerSet replica key value (Binary64.isCount_iff.mpr travels), Register.write,
        held, Register.Entry.supersedes, if_neg (Binary64.not_lt_of_le notLater)]
  | counterIncrement => exact dominates.elim
  | setAdd key element =>
      have listed : ((replica.sets.read? key).getD []).contains element = true := by
        rcases GrowSet.has_iff.mp dominates with ⟨elements, held, listed⟩
        simpa [held] using listed
      rw [apply_setAdd, GrowSet.add, if_pos listed]

/-- An increment that there is room for adds its amount under its key, and changes nothing else. -/
theorem apply_increment
    {replica : Replica}
    {key : String}
    {amount : Binary64}
    (reachable : replica.Reachable)
    (count : amount.isCount = true)
    (room : replica.counters.total key + amount.toNat ≤ largestSafe) :
    ∃ counters,
      replica.apply (.counterIncrement key amount) = .ok { replica with counters } ∧
        counters.read? key = some (.ofNat (replica.counters.total key + amount.toNat)) ∧
        ∀ other, other ≠ key → counters.read? other = replica.counters.read? other := by
  have applied := apply_counterIncrement reachable.whole count key
  rw [if_pos room] at applied
  refine ⟨_, applied, by simp [Counter.read?, Table.get?_put], ?_⟩
  intro other apart
  simp [Counter.read?, Table.get?_put, apart.symm]

end Replica

end ConvergentStore
