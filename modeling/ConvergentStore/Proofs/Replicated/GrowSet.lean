import ConvergentStore.Proofs.Replicated.Basic
import ConvergentStore.Replicated.GrowSet

/-!
# Members of grow-only sets

After any operations a set has exactly the elements that they add to it, in
whichever order they come and however often.
-/

namespace ConvergentStore.GrowSet

theorem has_empty (key element : String) : empty.has key element = false :=
  rfl

theorem has_iff {set : GrowSet} {key element : String} :
    set.has key element = true ↔ ∃ elements, set.read? key = some elements ∧ element ∈ elements := by
  cases held : set.read? key <;> simp [has, held]

theorem has_add
    (set : GrowSet)
    (key element soughtKey sought : String) :
    (set.add key element).has soughtKey sought = true ↔
      (key = soughtKey ∧ element = sought) ∨ set.has soughtKey sought = true := by
  rw [add]
  split
  · next listed =>
      have present : set.has key element = true := by
        cases stored : set.read? key with
        | none => simp [stored] at listed
        | some elements => simpa [has, stored] using listed
      constructor
      · exact Or.inr
      · rintro (⟨rfl, rfl⟩ | held)
        · exact present
        · exact held
  · simp only [has, read?, Table.get?_put]
    split
    · next here =>
        subst here
        cases set.members.get? key with
        | none => simp [eq_comm]
        | some elements =>
            simp only [Option.getD_some, Option.any_some, List.contains_eq_mem,
              List.mem_append, List.mem_singleton, decide_eq_true_eq, true_and]
            rw [or_comm, eq_comm (a := sought)]
    · next apart => simp only [apart, false_and, false_or]

theorem commit_setAdd (set : GrowSet) (key element : String) :
    (Replicated.commit (.setAdd key element) set).2 = set.add key element :=
  rfl

/-- Operations of other families leave sets as they are. -/
theorem commit_of_family_ne
    {operation : Operation}
    (foreign : operation.family ≠ .set)
    (set : GrowSet) :
    (Replicated.commit operation set).2 = set := by
  cases operation with
  | registerSet => rfl
  | counterIncrement => rfl
  | setAdd => exact absurd rfl foreign

/-- A set has exactly the elements that were added to it. -/
theorem has_replay
    (operations : List Operation)
    (key element : String) :
    (Replicated.replay operations empty).has key element = true ↔
      .setAdd key element ∈ operations := by
  induction operations using List.reverseRecOn with
  | nil => simp [has_empty]
  | append_singleton earlier last ih =>
      rw [Replicated.replay_concat, List.mem_append, List.mem_singleton]
      cases last with
      | registerSet => rw [commit_of_family_ne (by simp [Operation.family]), ih]; simp
      | counterIncrement => rw [commit_of_family_ne (by simp [Operation.family]), ih]; simp
      | setAdd addedKey added =>
          rw [commit_setAdd, has_add, ih, Operation.setAdd.injEq]
          constructor
          · rintro (⟨rfl, rfl⟩ | before)
            · exact Or.inr ⟨rfl, rfl⟩
            · exact Or.inl before
          · rintro (before | ⟨rfl, rfl⟩)
            · exact Or.inr before
            · exact Or.inl ⟨rfl, rfl⟩

end ConvergentStore.GrowSet
