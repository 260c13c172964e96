import ConvergentStore.Proofs.Replicated.Rejection
import ConvergentStore.Proofs.Replicated.Sums

/-!
# Batches

Several operations as one transaction against the same operations committed one
by one. If none of these is refused, both lead to the same state. Otherwise the
transaction is refused for the reason of the first of them that is, and has
changed nothing (`batches_atomic`). Registers and sets refuse an operation for
what it is, whatever the batch did before it; a counter may refuse it for what
earlier operations of the same batch have added.
-/

namespace ConvergentStore

open Binary64 (largestSafe)

namespace Replicated

section

variable {State Value : Type} [Replicated State Value]

/-! ## One by one -/

/-- Operations committed one by one: what each of them comes to, and the state that they leave. -/
def commitEach : List Operation → State → List (Except Refusal Unit) × State
  | [], state => ([], state)
  | operation :: rest, state =>
      let (outcome, next) := commit operation state
      let (outcomes, last) := commitEach rest next
      (outcome :: outcomes, last)

/-- The refusal that an operation came to, if it was refused. -/
def refusal? : Except Refusal Unit → Option Refusal
  | .ok _ => none
  | .error refusal => some refusal

theorem refusal?_eq_none_iff {outcome : Except Refusal Unit} :
    refusal? outcome = none ↔ outcome = .ok () := by
  cases outcome <;> simp [refusal?]

/-- Operations committed one by one leave what replaying them leaves. -/
theorem commitEach_state
    (operations : List Operation)
    (state : State) :
    (commitEach operations state).2 = replay operations state := by
  induction operations generalizing state with
  | nil => rfl
  | cons operation rest ih => exact ih _

/-! ## In one transaction -/

theorem applyAll_cons
    (operation : Operation)
    (rest : List Operation)
    (state : State) :
    applyAll (operation :: rest) state = apply operation state >>= applyAll rest :=
  rfl

/-- Operations in turn go as far as the first one that is refused when they come one by one. -/
theorem applyAll_eq
    (operations : List Operation)
    (state : State) :
    applyAll operations state =
      match (commitEach operations state).1.findSome? refusal? with
      | none => .ok (commitEach operations state).2
      | some refusal => .error refusal := by
  induction operations generalizing state with
  | nil => rfl
  | cons operation rest ih =>
      rw [applyAll_cons]
      cases result : apply operation state with
      | ok next =>
          have committed : commit operation state = (.ok (), next) := by
            simp [commit, transact, result]
          simp only [commitEach, committed, List.findSome?_cons, refusal?]
          exact ih next
      | error refusal =>
          have committed : commit operation state = (.error refusal, state) := by
            simp [commit, transact, result]
          simp only [commitEach, committed, List.findSome?_cons, refusal?]
          rfl

theorem commitAll_of_accepted
    {operations : List Operation}
    {state : State}
    (accepted : ∀ outcome ∈ (commitEach operations state).1, outcome = .ok ()) :
    commitAll operations state = (.ok (), (commitEach operations state).2) := by
  have none : (commitEach operations state).1.findSome? refusal? = none := by
    rw [List.findSome?_eq_none_iff]
    exact fun outcome among => refusal?_eq_none_iff.mpr (accepted outcome among)
  have applied := applyAll_eq operations state
  rw [none] at applied
  simp only [commitAll, transact, applied]

theorem commitAll_of_refused
    {operations : List Operation}
    {state : State}
    {earlier later : List (Except Refusal Unit)}
    {refusal : Refusal}
    (outcomes : (commitEach operations state).1 = earlier ++ .error refusal :: later)
    (accepted : ∀ outcome ∈ earlier, outcome = .ok ()) :
    commitAll operations state = (.error refusal, state) := by
  have first : (commitEach operations state).1.findSome? refusal? = some refusal := by
    rw [List.findSome?_eq_some_iff]
    exact ⟨earlier, _, later, outcomes, rfl,
      fun outcome among => refusal?_eq_none_iff.mpr (accepted outcome among)⟩
  have applied := applyAll_eq operations state
  rw [first] at applied
  simp only [commitAll, transact, applied]

/-! ## The first refusal -/

theorem commitAll_fst_eq_error_iff
    {operations : List Operation}
    {state : State}
    {refusal : Refusal} :
    (commitAll operations state).1 = .error refusal ↔
      applyAll operations state = .error refusal := by
  simp only [commitAll, transact]
  cases applyAll operations state <;> simp

/-- Operations are refused in turn if the first of them are accepted and the next one is refused. -/
theorem applyAll_eq_error_iff
    {operations : List Operation}
    {state : State}
    {refusal : Refusal} :
    applyAll operations state = .error refusal ↔
      ∃ earlier operation later next,
        operations = earlier ++ operation :: later ∧
          applyAll earlier state = .ok next ∧ apply operation next = .error refusal := by
  induction operations generalizing state with
  | nil =>
      constructor
      · rintro ⟨⟩
      · rintro ⟨earlier, operation, later, _, split, _⟩
        simp at split
  | cons head rest ih =>
      rw [applyAll_cons]
      cases result : apply head state with
      | error first =>
          constructor
          · rintro ⟨⟩
            exact ⟨[], head, rest, state, rfl, rfl, result⟩
          · rintro ⟨earlier, operation, later, next, split, accepted, refused⟩
            cases earlier with
            | nil =>
                cases split
                cases accepted
                exact result.symm.trans refused
            | cons other earlier =>
                cases split
                rw [applyAll_cons, result] at accepted
                cases accepted
      | ok middle =>
          refine Iff.trans ih ?_
          constructor
          · rintro ⟨earlier, operation, later, next, rfl, accepted, refused⟩
            refine ⟨head :: earlier, operation, later, next, rfl, ?_, refused⟩
            rw [applyAll_cons, result]
            exact accepted
          · rintro ⟨earlier, operation, later, next, split, accepted, refused⟩
            cases earlier with
            | nil =>
                cases split
                cases accepted
                rw [result] at refused
                cases refused
            | cons other earlier =>
                cases split
                rw [applyAll_cons, result] at accepted
                exact ⟨earlier, operation, later, next, rfl, accepted, refused⟩

section

variable
  {rejects : Operation → Refusal → Prop}
  (refuses : ∀ operation (state : State) refusal,
    apply operation state = .error refusal ↔ rejects operation refusal)

include refuses

theorem exists_applyAll_eq_ok_iff
    {operations : List Operation}
    (state : State) :
    (∃ next, applyAll operations state = .ok next) ↔
      ∀ operation ∈ operations, ∀ refusal, ¬ rejects operation refusal := by
  induction operations generalizing state with
  | nil => exact ⟨fun _ => by simp, fun _ => ⟨state, rfl⟩⟩
  | cons head rest ih =>
      rw [applyAll_cons, List.forall_mem_cons]
      cases result : apply head state with
      | error refusal =>
          constructor
          · rintro ⟨next, ⟨⟩⟩
          · intro accepted
            exact absurd ((refuses head state refusal).mp result) (accepted.1 refusal)
      | ok next =>
          refine Iff.trans (ih next) (iff_and_self.mpr fun _ refusal rejected => ?_)
          rw [← refuses head state, result] at rejected
          cases rejected

/--
If whether an operation is refused, and why, does not depend on the state, then
neither does it for a batch.
-/
theorem commitAll_fst_eq_error_iff_rejects
    {operations : List Operation}
    {state : State}
    {refusal : Refusal} :
    (commitAll operations state).1 = .error refusal ↔
      ∃ earlier operation later,
        operations = earlier ++ operation :: later ∧
          (∀ other ∈ earlier, ∀ reason, ¬ rejects other reason) ∧
            rejects operation refusal := by
  rw [commitAll_fst_eq_error_iff, applyAll_eq_error_iff]
  constructor
  · rintro ⟨earlier, operation, later, next, split, accepted, refused⟩
    exact ⟨earlier, operation, later, split,
      (exists_applyAll_eq_ok_iff refuses state).mp ⟨next, accepted⟩,
      (refuses operation next refusal).mp refused⟩
  · rintro ⟨earlier, operation, later, split, accepted, rejected⟩
    rcases (exists_applyAll_eq_ok_iff refuses state).mpr accepted with ⟨next, applied⟩
    exact ⟨earlier, operation, later, next, split, applied,
      (refuses operation next refusal).mpr rejected⟩

end

end

end Replicated

/-! ## Batches of increments -/

namespace Counter

section

variable {counter : Counter} (whole : counter.Whole)

include whole

/-- Operations that counters take in turn are increments. -/
theorem exists_increments_of_applyAll
    {operations : List Operation}
    {next : Counter}
    (accepted : Replicated.applyAll operations counter = .ok next) :
    ∃ added, operations = increments added := by
  induction operations generalizing counter with
  | nil => exact ⟨[], rfl⟩
  | cons operation rest ih =>
      rw [Replicated.applyAll_cons] at accepted
      cases result : Replicated.apply operation counter with
      | error refusal =>
          rw [result] at accepted
          cases accepted
      | ok middle =>
          rw [result] at accepted
          cases operation with
          | registerSet => cases result
          | setAdd => cases result
          | counterIncrement key amount =>
              rcases (apply_increment_eq_ok_iff whole).mp result with ⟨_, room, rfl⟩
              rcases ih (whole.raise room) accepted with ⟨added, rfl⟩
              exact ⟨(key, amount) :: added, rfl⟩

/-- Increments that are accepted raise each total by what they add under its key. -/
theorem total_applyAll_increments
    {added : List (String × Binary64)}
    {next : Counter}
    (accepted : Replicated.applyAll (increments added) counter = .ok next) :
    next.total = fun key => counter.total key + sumUnder key added := by
  funext key
  have room := ((exists_applyAll_increments_iff whole).mp ⟨next, accepted⟩).room key
  rw [total, read?_applyAll_increments whole accepted]
  split
  · exact Binary64.toNat_ofNat (room.trans Binary64.largestSafe_le)
  · next apart =>
      have nothing : sumUnder key added = 0 := by
        refine sumUnder_eq_zero fun amount among => apart ?_
        exact List.mem_map_of_mem (f := (·.1)) among
      rw [nothing]
      rfl

/-- Whole totals stay whole under increments that are accepted. -/
theorem Whole.applyAll_increments
    {added : List (String × Binary64)}
    {next : Counter}
    (accepted : Replicated.applyAll (increments added) counter = .ok next) :
    next.Whole := by
  induction added generalizing counter with
  | nil =>
      cases accepted
      exact whole
  | cons first rest ih =>
      rcases (applyAll_increments_cons_eq_ok_iff whole).mp accepted with ⟨_, room, later⟩
      exact ih (whole.raise room) later

/--
A batch of counters is refused at the first operation that is no increment, has
an unfit amount or finds no room beside what stands under its key and what the
batch has added there before.
-/
theorem commitAll_fst_eq_error_iff
    {operations : List Operation}
    {refusal : Refusal} :
    (Replicated.commitAll operations counter).1 = .error refusal ↔
      ∃ added operation later,
        operations = increments added ++ operation :: later ∧ counter.Fits added ∧
          Rejects (fun key => counter.total key + sumUnder key added) operation refusal := by
  rw [Replicated.commitAll_fst_eq_error_iff, Replicated.applyAll_eq_error_iff]
  constructor
  · rintro ⟨earlier, operation, later, next, split, accepted, refused⟩
    rcases exists_increments_of_applyAll whole accepted with ⟨added, rfl⟩
    refine ⟨added, operation, later, split, (exists_applyAll_increments_iff whole).mp ⟨next,
      accepted⟩, ?_⟩
    rw [← total_applyAll_increments whole accepted]
    exact (apply_eq_error_iff (whole.applyAll_increments accepted)).mp refused
  · rintro ⟨added, operation, later, split, fits, rejected⟩
    rcases (exists_applyAll_increments_iff whole).mpr fits with ⟨next, accepted⟩
    rw [← total_applyAll_increments whole accepted] at rejected
    exact ⟨_, operation, later, next, split, accepted,
      (apply_eq_error_iff (whole.applyAll_increments accepted)).mpr rejected⟩

end

end Counter

/-! ## Batches -/

namespace Replicated

/--
What several operations come to in one transaction. If each of them is accepted
when they are committed one by one, then so is the transaction, and it leaves
what they leave. Otherwise it is refused for the reason of the first of them that
is refused, and leaves the state as it was. For registers and sets that is the
first operation that such a state never takes; for counters that can be reached
it is the first one that they do not take after all that the batch has added
before it.
-/
theorem batches_atomic
    {State Value : Type}
    [Replicated State Value]
    (operations : List Operation)
    (state : State) :
    ((∀ outcome ∈ (commitEach operations state).1, outcome = .ok ()) →
      commitAll operations state = (.ok (), replay operations state)) ∧
    (∀ earlier refusal later,
      (commitEach operations state).1 = earlier ++ .error refusal :: later →
      (∀ outcome ∈ earlier, outcome = .ok ()) →
        commitAll operations state = (.error refusal, state)) ∧
    (∀ (register : Register) refusal,
      (commitAll operations register).1 = .error refusal ↔
        ∃ earlier operation later,
          operations = earlier ++ operation :: later ∧
            (∀ other ∈ earlier, ∀ reason, ¬ Register.Rejects other reason) ∧
              Register.Rejects operation refusal) ∧
    (∀ (set : GrowSet) refusal,
      (commitAll operations set).1 = .error refusal ↔
        ∃ earlier operation later,
          operations = earlier ++ operation :: later ∧
            (∀ other ∈ earlier, ∀ reason, ¬ GrowSet.Rejects other reason) ∧
              GrowSet.Rejects operation refusal) ∧
    ∀ (counter : Counter) refusal, counter.Reachable →
      ((commitAll operations counter).1 = .error refusal ↔
        ∃ added operation later,
          operations = Counter.increments added ++ operation :: later ∧ counter.Fits added ∧
            Counter.Rejects (fun key => counter.total key + Counter.sumUnder key added)
              operation refusal) := by
  refine ⟨?accepted, ?refused, ?registers, ?sets, ?counters⟩
  case accepted =>
    intro accepted
    rw [commitAll_of_accepted accepted, commitEach_state]
  case refused =>
    intro earlier refusal later outcomes accepted
    exact commitAll_of_refused outcomes accepted
  case registers =>
    intro register refusal
    exact commitAll_fst_eq_error_iff_rejects Register.apply_eq_error_iff
  case sets =>
    intro set refusal
    exact commitAll_fst_eq_error_iff_rejects GrowSet.apply_eq_error_iff
  case counters =>
    rintro _ refusal ⟨history, rfl⟩
    exact Counter.commitAll_fst_eq_error_iff (Counter.whole_replay history)

/--
Two increments are accepted and a third one overflows for what the first has
added, so that the batch fails for it, and not for the addition to a set behind it.
-/
theorem batches_atomic_overflow :
    let counter := replay [.counterIncrement "k" (.ofNat (largestSafe - 3))] Counter.empty
    let fitting : List Operation := [.counterIncrement "k" 1, .counterIncrement "j" 5]
    let operations := fitting ++ [.counterIncrement "k" 3, .setAdd "k" "e"]
    (commitEach operations counter).1 =
        [.ok (), .ok (), .error (.exceeded "k"), .error (.foreign .counter .set)] ∧
      commitAll operations counter = (.error (.exceeded "k"), counter) ∧
      commitAll fitting counter = (.ok (), replay fitting counter) ∧
      (replay fitting counter).read? "k" = some (.ofNat (largestSafe - 2)) ∧
      ∃ added operation later,
        operations = Counter.increments added ++ operation :: later ∧ counter.Fits added ∧
          Counter.Rejects (fun key => counter.total key + Counter.sumUnder key added)
            operation (.exceeded "k") := by
  intro counter fitting operations
  have outcomes : (commitEach operations counter).1 =
      [.ok (), .ok (), .error (.exceeded "k"), .error (.foreign .counter .set)] := by
    decide +kernel
  have accepted : ∀ outcome ∈ (commitEach fitting counter).1, outcome = .ok () := by
    decide +kernel
  have refused := (batches_atomic operations counter).2.1 [.ok (), .ok ()] _ _ outcomes (by simp)
  have failed : (commitAll operations counter).1 = .error (.exceeded "k") := by rw [refused]
  exact ⟨outcomes, refused, (batches_atomic fitting counter).1 accepted, by decide +kernel,
    ((batches_atomic operations counter).2.2.2.2 counter _ ⟨_, rfl⟩).mp failed⟩

end Replicated

end ConvergentStore
