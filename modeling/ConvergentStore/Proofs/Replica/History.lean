import ConvergentStore.Proofs.Operation.Wire
import ConvergentStore.Proofs.Replicated.Counter
import ConvergentStore.Proofs.Replicated.GrowSet
import ConvergentStore.Proofs.Replicated.Register
import ConvergentStore.Replica.State

/-!
# Histories of replicas

A replica is what the operations that it was given have left of the empty one,
refused operations dropped. What it holds depends on their order only where the
families let it: on which of several latest writes came first, and on which
amounts came before a total was full. `reflects_replay` says what does not
depend on it.
-/

namespace ConvergentStore.Replica

open Binary64 (largestSafe)

/-! ## Applying -/

theorem apply_registerSet
    (replica : Replica)
    (key value : String)
    {timestamp : Binary64}
    (count : timestamp.isCount = true) :
    replica.apply (.registerSet key value timestamp) =
      .ok { replica with registers := replica.registers.write key ⟨value, timestamp⟩ } := by
  simp [apply, Operation.family, Register.apply, count, Except.map]

theorem apply_counterIncrement
    {replica : Replica}
    {amount : Binary64}
    (whole : replica.counters.Whole)
    (count : amount.isCount = true)
    (key : String) :
    replica.apply (.counterIncrement key amount) =
      if replica.counters.total key + amount.toNat ≤ largestSafe then
        .ok { replica with
          counters :=
            ⟨replica.counters.totals.put key
              (.ofNat (replica.counters.total key + amount.toNat))⟩ }
      else .error (.exceeded key) := by
  simp only [apply, Operation.family, Counter.apply_counterIncrement whole count]
  split <;> rfl

theorem apply_setAdd
    (replica : Replica)
    (key element : String) :
    replica.apply (.setAdd key element) =
      .ok { replica with sets := replica.sets.add key element } :=
  rfl

/-- An operation that some replica takes may travel. -/
theorem mayTravel_of_apply
    {operation : Operation}
    {replica next : Replica}
    (accepted : replica.apply operation = .ok next) :
    operation.MayTravel := by
  cases operation with
  | registerSet key value timestamp =>
      apply Binary64.isCount_iff.mp
      by_contra noCount
      simp [apply, Operation.family, Register.apply, noCount, Except.map] at accepted
  | counterIncrement key amount =>
      apply Binary64.isCount_iff.mp
      by_contra noCount
      simp [apply, Operation.family, Counter.apply, noCount, Except.map] at accepted
  | setAdd key element => trivial

/-! ## Replaying -/

/-- The replica after an operation; a refused one leaves it as it was. -/
def commit (operation : Operation) (replica : Replica) : Replica :=
  match replica.apply operation with
  | .ok next => next
  | .error _ => replica

/-- The replica after operations that are committed one by one. -/
def replay (operations : List Operation) (replica : Replica) : Replica :=
  operations.foldl (fun replica operation => replica.commit operation) replica

/-- A replica precedes another one when operations lead from it to the other. -/
def Precedes (earlier later : Replica) : Prop :=
  ∃ operations, later = replay operations earlier

/-- A replica is reachable when operations lead to it from the empty one. -/
def Reachable (replica : Replica) : Prop :=
  ∃ operations, replica = replay operations empty

theorem commit_of_apply_eq_ok
    {operation : Operation}
    {replica next : Replica}
    (accepted : replica.apply operation = .ok next) :
    replica.commit operation = next := by
  simp [commit, accepted]

theorem replay_append
    (earlier later : List Operation)
    (replica : Replica) :
    replay (earlier ++ later) replica = replay later (replay earlier replica) := by
  simp only [replay, List.foldl_append]

theorem replay_concat
    (earlier : List Operation)
    (last : Operation)
    (replica : Replica) :
    replay (earlier ++ [last]) replica = (replay earlier replica).commit last :=
  replay_append earlier [last] replica

theorem reachable_empty : Reachable empty :=
  ⟨[], rfl⟩

theorem Precedes.refl (replica : Replica) : replica.Precedes replica :=
  ⟨[], rfl⟩

theorem Precedes.trans
    {first second third : Replica}
    (before : first.Precedes second)
    (after : second.Precedes third) :
    first.Precedes third := by
  rcases before with ⟨earlier, rfl⟩
  rcases after with ⟨later, rfl⟩
  exact ⟨earlier ++ later, (replay_append earlier later first).symm⟩

theorem precedes_commit
    (operation : Operation)
    (replica : Replica) :
    replica.Precedes (replica.commit operation) :=
  ⟨[operation], rfl⟩

theorem Reachable.of_precedes
    {replica later : Replica}
    (reachable : replica.Reachable)
    (precedes : replica.Precedes later) :
    later.Reachable :=
  Precedes.trans reachable precedes

/-- Each family of a replica commits the operation, and all but one leave their values alone. -/
theorem commit_eq (operation : Operation) (replica : Replica) :
    replica.commit operation =
      ⟨(Replicated.commit operation replica.registers).2,
        (Replicated.commit operation replica.counters).2,
        (Replicated.commit operation replica.sets).2⟩ := by
  cases operation with
  | registerSet key value timestamp =>
      rw [Counter.commit_of_family_ne (by simp [Operation.family]),
        GrowSet.commit_of_family_ne (by simp [Operation.family])]
      cases applied : Register.apply (.registerSet key value timestamp) replica.registers with
      | ok registers =>
          rw [Replicated.commit_of_apply_eq_ok applied]
          simp [commit, apply, Operation.family, applied, Except.map]
      | error refusal =>
          rw [Replicated.commit_of_apply_eq_error applied]
          simp [commit, apply, Operation.family, applied, Except.map]
  | counterIncrement key amount =>
      rw [Register.commit_of_family_ne (by simp [Operation.family]),
        GrowSet.commit_of_family_ne (by simp [Operation.family])]
      cases applied : Counter.apply (.counterIncrement key amount) replica.counters with
      | ok counters =>
          rw [Replicated.commit_of_apply_eq_ok applied]
          simp [commit, apply, Operation.family, applied, Except.map]
      | error refusal =>
          rw [Replicated.commit_of_apply_eq_error applied]
          simp [commit, apply, Operation.family, applied, Except.map]
  | setAdd key element =>
      rw [Register.commit_of_family_ne (by simp [Operation.family]),
        Counter.commit_of_family_ne (by simp [Operation.family])]
      rfl

/-- A replica replays a history family by family. -/
theorem replay_eq (operations : List Operation) :
    replay operations empty =
      ⟨Replicated.replay operations Register.empty,
        Replicated.replay operations Counter.empty,
        Replicated.replay operations GrowSet.empty⟩ := by
  induction operations using List.reverseRecOn with
  | nil => rfl
  | append_singleton earlier last ih =>
      rw [replay_concat, ih, commit_eq]
      simp only [Replicated.replay_concat]

/-- The totals of a reachable replica are natural numbers of the safe range. -/
theorem Reachable.whole
    {replica : Replica}
    (reachable : replica.Reachable) :
    replica.counters.Whole := by
  rcases reachable with ⟨operations, rfl⟩
  rw [replay_eq]
  exact Counter.whole_replay operations

/-! ## What a replica tells of its history -/

/-- A replica reflects operations when it holds what they lead to in every order. -/
structure Reflects (replica : Replica) (operations : List Operation) : Prop where
  /-- A set has exactly the elements that were added. -/
  sets : ∀ key element,
    replica.sets.has key element = true ↔ .setAdd key element ∈ operations
  /-- A counter holds the sum of the amounts, unless the sum leaves the safe range. -/
  counters : ∀ key, (Counter.amounts key operations).sum ≤ largestSafe →
    replica.counters.read? key = Counter.totalOf (Counter.amounts key operations)
  /-- A register holds the latest timestamp. -/
  timestamps : ∀ key,
    (replica.registers.entry? key).map (·.timestamp.canonical) =
      ((Register.writes key operations).map (·.second)).max?.map Binary64.ofNat
  /-- A register holds the value that all latest writes bring, if they all bring one. -/
  values : ∀ key value,
    (∀ write ∈ Register.writes key operations,
      (∀ other ∈ Register.writes key operations, other.second ≤ write.second) →
        write.value = value) →
    ∀ stored ∈ replica.registers.read? key, stored = value

theorem reflects_replay (operations : List Operation) :
    (replay operations empty).Reflects operations := by
  rw [replay_eq]
  constructor
  · exact GrowSet.has_replay operations
  · intro key room
    exact Counter.read?_replay room
  · intro key
    exact (Register.leaves_replay operations key).timestamp
  · intro key value agree stored held
    rcases Option.map_eq_some_iff.mp held with ⟨entry, found, rfl⟩
    exact (Register.leaves_replay operations key).value agree entry found

/-! ## The sign of zero -/

theorem written?_canonical (key : String) (operation : Operation) :
    Register.written? key operation.canonical = Register.written? key operation := by
  cases operation with
  | registerSet =>
      simp only [Operation.canonical, Register.written?, Binary64.isCount_canonical,
        Binary64.toNat_canonical]
  | counterIncrement => rfl
  | setAdd => rfl

theorem amount?_canonical (key : String) (operation : Operation) :
    Counter.amount? key operation.canonical = Counter.amount? key operation := by
  cases operation with
  | registerSet => rfl
  | counterIncrement =>
      simp only [Operation.canonical, Counter.amount?, Binary64.isCount_canonical,
        Binary64.toNat_canonical]
  | setAdd => rfl

theorem setAdd_mem_map_canonical
    (key element : String)
    (operations : List Operation) :
    .setAdd key element ∈ operations.map Operation.canonical ↔
      .setAdd key element ∈ operations := by
  rw [List.mem_map]
  constructor
  · rintro ⟨operation, member, same⟩
    cases operation with
    | registerSet => cases same
    | counterIncrement => cases same
    | setAdd => exact same ▸ member
  · intro member
    exact ⟨_, member, rfl⟩

/-- What is reflected are operations up to their order and to the sign of zero in them. -/
theorem Reflects.of_perm
    {replica : Replica}
    {left right : List Operation}
    (holds : replica.Reflects left)
    (same : (left.map Operation.canonical).Perm (right.map Operation.canonical)) :
    replica.Reflects right := by
  have writes : ∀ key, (Register.writes key left).Perm (Register.writes key right) := by
    intro key
    have mapped := same.filterMap (Register.written? key)
    rw [List.filterMap_map, List.filterMap_map] at mapped
    rwa [show Register.written? key ∘ Operation.canonical = Register.written? key from
      funext (written?_canonical key)] at mapped
  have amounts : ∀ key, (Counter.amounts key left).Perm (Counter.amounts key right) := by
    intro key
    have mapped := same.filterMap (Counter.amount? key)
    rw [List.filterMap_map, List.filterMap_map] at mapped
    rwa [show Counter.amount? key ∘ Operation.canonical = Counter.amount? key from
      funext (amount?_canonical key)] at mapped
  constructor
  · intro key element
    rw [holds.sets, ← setAdd_mem_map_canonical, same.mem_iff, setAdd_mem_map_canonical]
  · intro key room
    rw [← (amounts key).sum_nat] at room
    rw [holds.counters key room]
    exact Counter.totalOf_perm (amounts key)
  · intro key
    have seconds := (writes key).map Register.Write.second
    rw [holds.timestamps, Register.max?_eq_of_mem_iff fun _ => seconds.mem_iff]
  · intro key value agree
    apply holds.values key value
    intro write member latest
    apply agree write ((writes key).mem_iff.mp member)
    intro other among
    exact latest other ((writes key).mem_iff.mpr among)

end ConvergentStore.Replica
