import ConvergentStore.Proofs.Replica.Effect
import Mathlib.Data.List.Induction
import Mathlib.Data.Option.Basic

/-!
# What grow-only sets list

Operations leave the elements that they add under a key, each one once, in the
order in which they first came (`read?_replay_eq`). So what has been added
already leaves no trace when it is added again, and what sets of operations
have in common is the elements listed and not their order
(`lists_first_appearances`).
-/

namespace ConvergentStore.GrowSet

/-! ## Additions -/

/-- The element that an operation adds under a key, if it adds one. -/
def added? (key : String) : Operation → Option String
  | .setAdd target element => if target = key then some element else none
  | _ => none

/-- The elements that operations add under a key, in turn. -/
def added (key : String) (operations : List Operation) : List String :=
  operations.filterMap (added? key)

theorem added_concat
    (key : String)
    (earlier : List Operation)
    (last : Operation) :
    added key (earlier ++ [last]) = added key earlier ++ (added? key last).toList := by
  rw [added, List.filterMap_append]
  cases adds : added? key last <;> simp [added, adds]

theorem mem_added_iff
    {key element : String}
    {operations : List Operation} :
    element ∈ added key operations ↔ .setAdd key element ∈ operations := by
  rw [added, List.mem_filterMap]
  constructor
  · rintro ⟨operation, among, adds⟩
    cases operation with
    | registerSet => cases adds
    | counterIncrement => cases adds
    | setAdd target other =>
        simp only [added?] at adds
        split at adds
        · next here =>
            cases adds
            exact here ▸ among
        · cases adds
  · intro among
    exact ⟨_, among, if_pos rfl⟩

/-! ## Listings -/

theorem apply_of_family_ne
    {operation : Operation}
    (foreign : operation.family ≠ .set)
    (set : GrowSet) :
    apply operation set = .error (.foreign .set operation.family) := by
  cases operation with
  | registerSet => rfl
  | counterIncrement => rfl
  | setAdd => exact absurd rfl foreign

theorem read?_add
    (set : GrowSet)
    (key element sought : String) :
    (set.add key element).read? sought =
      if key = sought then some (listing element ((set.read? sought).getD []))
      else set.read? sought := by
  split
  · next here =>
      subst here
      exact set.read?_add_self key element
  · next apart =>
      rw [add]
      split
      · rfl
      · simp [read?, Table.get?_put, apart]

/-- One more element in turn is listed at the end, unless it is there already. -/
theorem eraseDups_concat
    (earlier : List String)
    (last : String) :
    (earlier ++ [last]).eraseDups = listing last earlier.eraseDups := by
  rw [List.eraseDups_append, listing]
  by_cases before : last ∈ earlier
  · simp [List.removeAll, before, List.mem_eraseDups]
  · simp [List.removeAll, before, List.mem_eraseDups, List.eraseDups_cons]

/-- What a set lists under a key to which elements were added, if any were. -/
def listed (elements : List String) : Option (List String) :=
  if elements = [] then none else some elements.eraseDups

theorem getD_listed (elements : List String) :
    (listed elements).getD [] = elements.eraseDups := by
  rw [listed]
  split
  · next none =>
      rw [none]
      rfl
  · rfl

/-- A set lists the elements that were added, each one where it first came. -/
theorem read?_replay_eq
    (operations : List Operation)
    (key : String) :
    (Replicated.replay operations empty).read? key = listed (added key operations) := by
  induction operations using List.reverseRecOn with
  | nil => rfl
  | append_singleton earlier last ih =>
      rw [Replicated.replay_concat, added_concat]
      cases last with
      | registerSet =>
          rw [commit_of_family_ne (by simp [Operation.family]), ih]
          simp [added?]
      | counterIncrement =>
          rw [commit_of_family_ne (by simp [Operation.family]), ih]
          simp [added?]
      | setAdd target element =>
          rw [commit_setAdd, read?_add, ih, getD_listed]
          by_cases here : target = key
          · simp [added?, here, listed, eraseDups_concat]
          · simp [added?, here]

/-! ## Additions made again -/

/-- To add an element again changes nothing. -/
theorem add_of_has
    {set : GrowSet}
    {key element : String}
    (present : set.has key element = true) :
    set.add key element = set := by
  rcases has_iff.mp present with ⟨elements, held, among⟩
  rw [add, held]
  simp [among]

/-- Operations that have been taken already change nothing, however often they come again. -/
theorem replay_append_of_subset
    {operations more : List Operation}
    (again : more ⊆ operations) :
    Replicated.replay (operations ++ more) empty = Replicated.replay operations empty := by
  rw [Replicated.replay_append]
  induction more using List.reverseRecOn with
  | nil => rfl
  | append_singleton earlier last ih =>
      rw [Replicated.replay_concat, ih (List.Subset.trans (List.subset_append_left _ _) again)]
      cases last with
      | registerSet => exact commit_of_family_ne (by simp [Operation.family]) _
      | counterIncrement => exact commit_of_family_ne (by simp [Operation.family]) _
      | setAdd key element =>
          refine add_of_has ((has_replay operations key element).mpr (again ?_))
          exact List.mem_append_right _ (List.mem_singleton.mpr rfl)

/-! ## Operations in another order -/

/-- Listings of the same elements are the same but for their order. -/
theorem rel_perm_of_added
    {left right : List Operation}
    {key : String}
    (same : ∀ element, element ∈ added key left ↔ element ∈ added key right) :
    Option.Rel List.Perm
      ((Replicated.replay left empty).read? key)
      ((Replicated.replay right empty).read? key) := by
  have leftDistinct := distinct_replay left key
  have rightDistinct := distinct_replay right key
  rw [read?_replay_eq] at leftDistinct rightDistinct ⊢
  rw [read?_replay_eq]
  have nothing : added key left = [] ↔ added key right = [] := by
    simp only [List.eq_nil_iff_forall_not_mem, same]
  simp only [listed] at leftDistinct rightDistinct ⊢
  by_cases none : added key left = []
  · rw [if_pos none, if_pos (nothing.mp none)]
    exact .none
  · rw [if_neg none] at leftDistinct ⊢
    rw [if_neg (mt nothing.mpr none)] at rightDistinct ⊢
    refine .some ((List.perm_ext_iff_of_nodup (leftDistinct _ rfl).2 (rightDistinct _ rfl).2).mpr ?_)
    intro element
    rw [List.mem_eraseDups, List.mem_eraseDups, same]

/--
What operations make of sets that are empty at first. Those of other families
are refused and change nothing. The keys are those under which something is
added, and under each key the elements added are listed once, in the order in
which they first came. So operations that come again change nothing, and
operations that add the same elements list the same, each key in some order.
-/
theorem lists_first_appearances (operations : List Operation) :
    let set := Replicated.replay operations empty
    (∀ operation (state : GrowSet), operation.family ≠ .set →
        Replicated.apply operation state = .error (.foreign .set operation.family) ∧
          (Replicated.commit operation state).2 = state) ∧
      (∀ key, key ∈ Replicated.keys set ↔ ∃ element, .setAdd key element ∈ operations) ∧
      (∀ key, set.read? key =
        if added key operations = [] then none else some (added key operations).eraseDups) ∧
      (∀ key element, set.has key element = true ↔ .setAdd key element ∈ operations) ∧
      (∀ more, more ⊆ operations → Replicated.replay (operations ++ more) empty = set) ∧
      ∀ others, (∀ key element, .setAdd key element ∈ others ↔ .setAdd key element ∈ operations) →
        ∀ key, Option.Rel List.Perm ((Replicated.replay others empty).read? key) (set.read? key) := by
  intro set
  refine ⟨?foreign, ?keys, read?_replay_eq operations, has_replay operations,
    fun _ => replay_append_of_subset, ?others⟩
  case foreign =>
    intro operation state foreign
    exact ⟨apply_of_family_ne foreign state, commit_of_family_ne foreign state⟩
  case keys =>
    intro key
    have held : key ∈ Replicated.keys set ↔ ∃ elements, set.read? key = some elements :=
      Table.mem_keys_iff
    simp only [held, ← mem_added_iff]
    rw [read?_replay_eq, listed]
    cases elements : added key operations with
    | nil => simp
    | cons first rest => simp
  case others =>
    intro others same key
    refine rel_perm_of_added fun element => ?_
    rw [mem_added_iff, mem_added_iff, same]

/-- Elements that come again, and in the opposite order. -/
theorem lists_first_appearances_reversed :
    let operations : List Operation :=
      [.setAdd "k" "b", .setAdd "j" "b", .setAdd "k" "b", .setAdd "k" "a"]
    let set := Replicated.replay operations empty
    let other := Replicated.replay operations.reverse empty
    set.read? "k" = some ["b", "a"] ∧
      other.read? "k" = some ["a", "b"] ∧
      Replicated.replay (operations ++ operations.reverse) empty = set ∧
      ∀ key, Option.Rel List.Perm (other.read? key) (set.read? key) := by
  intro operations set other
  rcases lists_first_appearances operations with ⟨_, _, listed, _, again, reordered⟩
  refine ⟨?_, by decide +kernel, again _ (List.reverse_perm operations).subset, ?_⟩
  · rw [listed "k"]
    decide +kernel
  · exact reordered _ fun key element => (List.reverse_perm operations).mem_iff

end ConvergentStore.GrowSet
