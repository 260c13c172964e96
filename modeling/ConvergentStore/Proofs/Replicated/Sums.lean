import ConvergentStore.Proofs.Replicated.Counter

/-!
# Sums of increments

Increments are all accepted if and only if their amounts are natural numbers and
no total leaves the safe range when all amounts under its key are added to it as
natural numbers (`exists_applyAll_increments_iff`). Rounding has no part in
this: a sum within the range is exact, and no sum beyond it is rounded back into
it. So increments that are accepted in one order are accepted in all, and all
orders lead to the same totals (`increments_sum`).
-/

namespace ConvergentStore.Counter

open Binary64 (largestSafe)

/-! ## Increments -/

/-- Keys and amounts as operations that add each amount under its key. -/
def increments (amounts : List (String × Binary64)) : List Operation :=
  amounts.map fun added => .counterIncrement added.1 added.2

/-- What is added under a key in all, as a natural number. -/
def sumUnder (key : String) (added : List (String × Binary64)) : Nat :=
  (amounts key (increments added)).sum

theorem sumUnder_cons
    {amount : Binary64}
    (count : amount.isCount = true)
    (target : String)
    (rest : List (String × Binary64))
    (key : String) :
    sumUnder key ((target, amount) :: rest) =
      (if target = key then amount.toNat else 0) + sumUnder key rest := by
  simp only [sumUnder, increments, amounts, List.map_cons, List.filterMap_cons, amount?, count,
    and_true]
  by_cases here : target = key <;> simp [here]

theorem sumUnder_perm
    {added other : List (String × Binary64)}
    (reordered : other.Perm added)
    (key : String) :
    sumUnder key other = sumUnder key added :=
  ((reordered.map _).filterMap (amount? key)).sum_nat

/-- Nothing is added under a key that is not among the keys. -/
theorem sumUnder_eq_zero
    {key : String}
    {added : List (String × Binary64)}
    (apart : ∀ amount, (key, amount) ∉ added) :
    sumUnder key added = 0 := by
  have nothing : amounts key (increments added) = [] := by
    rw [amounts, increments, List.filterMap_map, List.filterMap_eq_nil_iff]
    rintro ⟨target, amount⟩ among
    have elsewhere : target ≠ key := by
      rintro rfl
      exact apart amount among
    simp [amount?, elsewhere]
  rw [sumUnder, nothing]
  rfl

/-! ## One increment -/

/-- The counters after an amount is added under a key, as a natural number. -/
def raise (counter : Counter) (key : String) (amount : Nat) : Counter :=
  ⟨counter.totals.put key (.ofNat (counter.total key + amount))⟩

section

variable {counter : Counter} (whole : counter.Whole)

include whole

/-- An increment is refused for its amount, or for want of room and only then. -/
theorem apply_increment_eq_ok_iff
    {key : String}
    {amount : Binary64}
    {next : Counter} :
    apply (.counterIncrement key amount) counter = .ok next ↔
      amount.isCount = true ∧ counter.total key + amount.toNat ≤ largestSafe ∧
        next = counter.raise key amount.toNat := by
  cases count : amount.isCount with
  | false => simp [apply, count]
  | true =>
      rw [apply_counterIncrement whole count key]
      split
      · next room =>
          simp only [Except.ok.injEq, room, true_and]
          exact eq_comm
      · next full => simp [full]

theorem apply_increment_eq_error_iff
    {key : String}
    {amount : Binary64} :
    (∃ refusal, apply (.counterIncrement key amount) counter = .error refusal) ↔
      amount.isCount = false ∨ largestSafe < counter.total key + amount.toNat := by
  cases result : apply (.counterIncrement key amount) counter with
  | ok next =>
      rcases (apply_increment_eq_ok_iff whole).mp result with ⟨count, room, _⟩
      simp [count, not_lt.mpr room]
  | error refusal =>
      simp only [Except.error.injEq, exists_eq', true_iff]
      by_contra fits
      rw [not_or, Bool.not_eq_false, not_lt] at fits
      have accepted := (apply_increment_eq_ok_iff whole).mpr ⟨fits.1, fits.2, rfl⟩
      rw [result] at accepted
      cases accepted

theorem Whole.raise
    {key : String}
    {amount : Nat}
    (room : counter.total key + amount ≤ largestSafe) :
    Whole (counter.raise key amount) := by
  intro sought held found
  simp only [Counter.raise, read?, Table.get?_put] at found
  split at found
  · cases found
    exact ⟨_, room, rfl⟩
  · exact whole sought held found

end

theorem read?_raise
    (counter : Counter)
    (key : String)
    (amount : Nat)
    (sought : String) :
    (counter.raise key amount).read? sought =
      if key = sought then some (.ofNat (counter.total key + amount)) else counter.read? sought :=
  Table.get?_put _ _ _ _

theorem total_raise
    {counter : Counter}
    {key : String}
    {amount : Nat}
    (room : counter.total key + amount ≤ largestSafe)
    (sought : String) :
    (counter.raise key amount).total sought =
      counter.total sought + if key = sought then amount else 0 := by
  rw [total, read?_raise]
  split
  · next here =>
      subst here
      exact Binary64.toNat_ofNat (room.trans Binary64.largestSafe_le)
  · rfl

/-! ## Increments in turn -/

/-- Amounts fit when they are natural numbers and every total stays in the safe range with them. -/
structure Fits (counter : Counter) (added : List (String × Binary64)) : Prop where
  counts : ∀ key amount, (key, amount) ∈ added → amount.isCount = true
  room : ∀ key, counter.total key + sumUnder key added ≤ largestSafe

theorem Fits.perm
    {counter : Counter}
    {added other : List (String × Binary64)}
    (fits : counter.Fits added)
    (reordered : other.Perm added) :
    counter.Fits other where
  counts := fun key amount among => fits.counts key amount (reordered.mem_iff.mp among)
  room := by
    intro key
    rw [sumUnder_perm reordered]
    exact fits.room key

/-- Amounts fit if the first one does and the others fit after it. -/
theorem fits_cons_iff
    {counter : Counter}
    {key : String}
    {amount : Binary64}
    {rest : List (String × Binary64)} :
    counter.Fits ((key, amount) :: rest) ↔
      amount.isCount = true ∧ counter.total key + amount.toNat ≤ largestSafe ∧
        (counter.raise key amount.toNat).Fits rest := by
  constructor
  · intro fits
    have count := fits.counts key amount List.mem_cons_self
    have summed := sumUnder_cons count key rest
    have room : counter.total key + amount.toNat ≤ largestSafe := by
      have within := fits.room key
      rw [summed, if_pos rfl] at within
      omega
    refine ⟨count, room, ?_, ?_⟩
    · exact fun other more among => fits.counts other more (List.mem_cons_of_mem _ among)
    · intro sought
      rw [total_raise room, Nat.add_assoc, ← summed]
      exact fits.room sought
  · rintro ⟨count, room, later⟩
    refine ⟨?_, ?_⟩
    · intro other more among
      rcases List.mem_cons.mp among with first | rest
      · cases first
        exact count
      · exact later.counts other more rest
    · intro sought
      have within := later.room sought
      rwa [total_raise room, Nat.add_assoc, ← sumUnder_cons count] at within

section

variable {counter : Counter} (whole : counter.Whole)

include whole

theorem applyAll_increments_cons_eq_ok_iff
    {key : String}
    {amount : Binary64}
    {rest : List (String × Binary64)}
    {next : Counter} :
    Replicated.applyAll (increments ((key, amount) :: rest)) counter = .ok next ↔
      amount.isCount = true ∧ counter.total key + amount.toNat ≤ largestSafe ∧
        Replicated.applyAll (increments rest) (counter.raise key amount.toNat) = .ok next := by
  show (apply (.counterIncrement key amount) counter >>=
    Replicated.applyAll (increments rest)) = .ok next ↔ _
  cases result : apply (.counterIncrement key amount) counter with
  | ok middle =>
      rcases (apply_increment_eq_ok_iff whole).mp result with ⟨count, room, rfl⟩
      simp only [count, room, true_and]
      rfl
  | error refusal =>
      constructor
      · rintro ⟨⟩
      · rintro ⟨count, room, _⟩
        rw [(apply_increment_eq_ok_iff whole).mpr ⟨count, room, rfl⟩] at result
        cases result

/-- Increments are all accepted if and only if their amounts fit. -/
theorem exists_applyAll_increments_iff {added : List (String × Binary64)} :
    (∃ next, Replicated.applyAll (increments added) counter = .ok next) ↔
      counter.Fits added := by
  induction added generalizing counter with
  | nil =>
      refine ⟨fun _ => ⟨?_, ?_⟩, fun _ => ⟨counter, rfl⟩⟩
      · exact fun _ _ among => absurd among List.not_mem_nil
      · exact fun key => (whole.getD_eq key).1
  | cons first rest ih =>
      rcases first with ⟨key, amount⟩
      rw [fits_cons_iff]
      constructor
      · rintro ⟨next, accepted⟩
        rcases (applyAll_increments_cons_eq_ok_iff whole).mp accepted with ⟨count, room, later⟩
        exact ⟨count, room, (ih (whole.raise room)).mp ⟨next, later⟩⟩
      · rintro ⟨count, room, later⟩
        rcases (ih (whole.raise room)).mpr later with ⟨next, accepted⟩
        exact ⟨next, (applyAll_increments_cons_eq_ok_iff whole).mpr ⟨count, room, accepted⟩⟩

/-- Increments that are accepted add the sum of their amounts to each total, and count its key. -/
theorem read?_applyAll_increments
    {added : List (String × Binary64)}
    {next : Counter}
    (accepted : Replicated.applyAll (increments added) counter = .ok next)
    (sought : String) :
    next.read? sought =
      if sought ∈ added.map (·.1) then
        some (.ofNat (counter.total sought + sumUnder sought added))
      else counter.read? sought := by
  induction added generalizing counter with
  | nil =>
      cases accepted
      rfl
  | cons first rest ih =>
      rcases first with ⟨key, amount⟩
      rcases (applyAll_increments_cons_eq_ok_iff whole).mp accepted with ⟨count, room, later⟩
      rw [ih (whole.raise room) later, total_raise room, read?_raise, sumUnder_cons count,
        Nat.add_assoc, List.map_cons]
      by_cases more : sought ∈ rest.map (·.1)
      · rw [if_pos more, if_pos (List.mem_cons_of_mem _ more)]
      · have nothing : sumUnder sought rest = 0 := by
          refine sumUnder_eq_zero fun other among => more ?_
          exact List.mem_map_of_mem (f := (·.1)) among
        by_cases here : key = sought
        · subst here
          simp [more, nothing]
        · simp [more, here, Ne.symm here]

/-- Increments that are accepted in one order lead to the same totals in every order. -/
theorem applyAll_increments_perm
    {added other : List (String × Binary64)}
    {next : Counter}
    (accepted : Replicated.applyAll (increments added) counter = .ok next)
    (reordered : other.Perm added) :
    Replicated.applyAll (increments other) counter = .ok next := by
  have fits := (exists_applyAll_increments_iff whole).mp ⟨next, accepted⟩
  rcases (exists_applyAll_increments_iff whole).mpr (fits.perm reordered) with ⟨last, also⟩
  have same : last = next := by
    refine congrArg Counter.mk (Table.ext_get? fun key => ?_)
    have keys : key ∈ other.map (·.1) ↔ key ∈ added.map (·.1) := (reordered.map _).mem_iff
    have one := read?_applyAll_increments whole also key
    have another := read?_applyAll_increments whole accepted key
    rw [sumUnder_perm reordered, if_congr keys rfl rfl] at one
    exact one.trans another.symm
  rw [also, same]

end

/-- Whether operations lead from no counters at all to these. -/
def Reachable (counter : Counter) : Prop :=
  ∃ history, Replicated.replay history empty = counter

/--
What increments make of counters that can be reached. Totals are natural
numbers, and one increment is refused exactly when its amount is no natural
number of the safe range or the exact sum leaves that range. So several are all
accepted if and only if their amounts are such numbers and every total stays in
the range with all that is added to it; then they are accepted in every order,
all orders lead to the same counters, and these hold the exact sums under the
keys that were counted and are unchanged elsewhere.
-/
theorem increments_sum
    {counter : Counter}
    (reachable : counter.Reachable)
    (added : List (String × Binary64)) :
    (∀ key held, counter.read? key = some held → held = .ofNat (counter.total key)) ∧
      (∀ key amount,
        ((∃ refusal, Replicated.apply (.counterIncrement key amount) counter = .error refusal) ↔
          ¬ ∃ n : Nat, n ≤ largestSafe ∧ amount.equals (.ofNat n) = true ∧
            counter.total key + n ≤ largestSafe)) ∧
      ((∃ next, Replicated.applyAll (increments added) counter = .ok next) ↔
        (∀ key amount, (key, amount) ∈ added →
            ∃ n : Nat, n ≤ largestSafe ∧ amount.equals (.ofNat n) = true) ∧
          ∀ key, counter.total key + sumUnder key added ≤ largestSafe) ∧
      ∀ next, Replicated.applyAll (increments added) counter = .ok next →
        (∀ other : List (String × Binary64), other.Perm added →
            Replicated.applyAll (increments other) counter = .ok next) ∧
          ∀ key, next.read? key =
            if key ∈ added.map (·.1) then
              some (.ofNat (counter.total key + sumUnder key added))
            else counter.read? key := by
  have whole : counter.Whole := by
    rcases reachable with ⟨history, rfl⟩
    exact whole_replay history
  refine ⟨?totals, ?refused, ?accepted, ?reordered⟩
  case totals =>
    intro key held found
    have stands := (whole.getD_eq key).2
    rwa [found] at stands
  case refused =>
    intro key amount
    refine (apply_increment_eq_error_iff whole).trans ?_
    rw [← Bool.not_eq_true, ← not_le, ← not_and_or, not_congr]
    constructor
    · rintro ⟨count, room⟩
      exact ⟨amount.toNat, Binary64.toNat_le_of_isCount count,
        Binary64.equals_ofNat_toNat count, room⟩
    · rintro ⟨n, small, equal, room⟩
      rw [Binary64.toNat_eq (small.trans Binary64.largestSafe_le) equal]
      exact ⟨Binary64.isCount_iff.mpr ⟨n, small, equal⟩, room⟩
  case accepted =>
    rw [exists_applyAll_increments_iff whole]
    simp only [← Binary64.isCount_iff]
    exact ⟨fun fits => ⟨fits.counts, fits.room⟩, fun ⟨counts, room⟩ => ⟨counts, room⟩⟩
  case reordered =>
    intro next accepted
    exact ⟨fun other => applyAll_increments_perm whole accepted,
      read?_applyAll_increments whole accepted⟩

/-- Three amounts fill a total to the last, in either order; two others would overflow it by one. -/
theorem increments_sum_filled :
    let counter := Replicated.replay [.counterIncrement "k" (.ofNat (largestSafe - 3))] empty
    let added : List (String × Binary64) := [("k", 1), ("j", 0), ("k", 2)]
    counter.Reachable ∧
      (∃ next, Replicated.applyAll (increments added) counter = .ok next ∧
        Replicated.applyAll (increments added.reverse) counter = .ok next ∧
          next.read? "k" = some (.ofNat largestSafe) ∧ next.read? "j" = some 0) ∧
      ¬ ∃ next, Replicated.applyAll (increments [("k", 1), ("k", 3)]) counter = .ok next := by
  intro counter added
  have reachable : counter.Reachable := ⟨_, rfl⟩
  refine ⟨reachable, ?accepted, ?refused⟩
  case accepted =>
    have done : (Replicated.applyAll (increments added) counter).isOk = true := by decide +kernel
    cases result : Replicated.applyAll (increments added) counter with
    | error refusal =>
        rw [result] at done
        cases done
    | ok next =>
        rcases (increments_sum reachable added).2.2.2 next result with ⟨reordered, holds⟩
        refine ⟨next, rfl, reordered _ (List.reverse_perm _), ?_, ?_⟩
        · rw [holds "k"]
          decide +kernel
        · rw [holds "j"]
          decide +kernel
  case refused =>
    intro accepted
    have room := ((increments_sum reachable _).2.2.1.mp accepted).2 "k"
    have full : largestSafe < counter.total "k" + sumUnder "k" [("k", 1), ("k", 3)] := by
      decide +kernel
    exact not_le.mpr full room

end ConvergentStore.Counter
