/-!
# Tables

A table holds at most one value for each key and lists its keys in order. As
the listing is strictly ascending, a table is determined by the values it
holds: `ext_get?` says that two tables with the same values are equal.
-/

namespace ConvergentStore

/-! ## Ascending listings -/

namespace Ascending

/-- The value under a key of a listing. -/
def find? {α : Type} (key : String) : List (String × α) → Option α
  | [] => none
  | (stored, value) :: rest => if stored = key then some value else find? key rest

/-- A listing with a value under a key: in place of the old one, or where the key belongs. -/
def put {α : Type} (key : String) (value : α) : List (String × α) → List (String × α)
  | [] => [(key, value)]
  | (stored, old) :: rest =>
      if stored = key then (key, value) :: rest
      else if key < stored then (key, value) :: (stored, old) :: rest
      else (stored, old) :: put key value rest

/-- A listing is ascending when every key is below the keys after it. -/
def Sorted {α : Type} (entries : List (String × α)) : Prop :=
  entries.Pairwise fun left right => left.1 < right.1

theorem mem_put {α : Type} {key : String} {value : α} {entries : List (String × α)}
    {entry : String × α} (member : entry ∈ put key value entries) :
    entry = (key, value) ∨ entry ∈ entries := by
  induction entries with
  | nil => exact Or.inl (by simpa [put] using member)
  | cons head rest ih =>
      obtain ⟨stored, old⟩ := head
      simp only [put] at member
      split at member
      · rcases List.mem_cons.mp member with here | later
        · exact Or.inl here
        · exact Or.inr (List.mem_cons_of_mem _ later)
      · split at member
        · rcases List.mem_cons.mp member with here | later
          · exact Or.inl here
          · exact Or.inr later
        · rcases List.mem_cons.mp member with here | later
          · exact Or.inr (here ▸ List.mem_cons_self)
          · exact (ih later).imp_right (List.mem_cons_of_mem _)

theorem below_of_not {key stored : String} (different : stored ≠ key)
    (notBelow : ¬ key < stored) : stored < key := by
  rcases Decidable.em (stored < key) with below | notAbove
  · exact below
  · exact absurd (String.le_antisymm notBelow notAbove) different

theorem sorted_put {α : Type} (key : String) (value : α) {entries : List (String × α)}
    (sorted : Sorted entries) :
    Sorted (put key value entries) := by
  induction entries with
  | nil => simp [put, Sorted]
  | cons head rest ih =>
      obtain ⟨stored, old⟩ := head
      have ⟨below, later⟩ := List.pairwise_cons.mp sorted
      simp only [put]
      split
      · next same =>
          subst same
          exact List.pairwise_cons.mpr ⟨below, later⟩
      · next different =>
          split
          · next before =>
              refine List.pairwise_cons.mpr ⟨?_, sorted⟩
              intro entry member
              rcases List.mem_cons.mp member with here | after
              · exact here ▸ before
              · exact String.lt_trans before (below entry after)
          · next notBefore =>
              refine List.pairwise_cons.mpr ⟨?_, ih later⟩
              intro entry member
              rcases mem_put member with here | after
              · exact here ▸ below_of_not different notBefore
              · exact below entry after

theorem find?_put {α : Type} (key : String) (value : α) (entries : List (String × α))
    (sought : String) :
    find? sought (put key value entries) =
      if key = sought then some value else find? sought entries := by
  induction entries with
  | nil => simp [put, find?]
  | cons head rest ih =>
      obtain ⟨stored, old⟩ := head
      simp only [put]
      split
      · next same => subst same; simp only [find?]; split <;> rfl
      · split
        · simp only [find?]
        · next different _ =>
            simp only [find?, ih]
            split
            · next here =>
                have apart : ¬ key = sought := fun same => different (here.trans same.symm)
                simp [apart]
            · rfl

theorem find?_eq_none_of_below {α : Type} {key : String} {entries : List (String × α)}
    (below : ∀ entry ∈ entries, key < entry.1) :
    find? key entries = none := by
  induction entries with
  | nil => rfl
  | cons head rest ih =>
      obtain ⟨stored, value⟩ := head
      have first := below _ List.mem_cons_self
      have different : ¬ stored = key := fun same =>
        String.lt_irrefl key (same ▸ first)
      simp only [find?, different, ↓reduceIte]
      exact ih fun entry member => below entry (List.mem_cons_of_mem _ member)

theorem mem_keys_iff {α : Type} {key : String} {entries : List (String × α)} :
    key ∈ entries.map (·.1) ↔ ∃ value, find? key entries = some value := by
  induction entries with
  | nil => simp [find?]
  | cons head rest ih =>
      obtain ⟨stored, value⟩ := head
      by_cases here : stored = key
      · simp [find?, here]
      · simp only [List.map_cons, List.mem_cons, ih, find?, here, ↓reduceIte, Ne.symm here,
          false_or]

/-- An ascending listing is determined by the values it holds. -/
theorem eq_of_find? {α : Type} {left right : List (String × α)}
    (leftSorted : Sorted left) (rightSorted : Sorted right)
    (same : ∀ key, find? key left = find? key right) :
    left = right := by
  induction left generalizing right with
  | nil =>
      cases right with
      | nil => rfl
      | cons head rest => simpa [find?] using same head.1
  | cons leftHead leftRest ih =>
      cases right with
      | nil => simpa [find?] using same leftHead.1
      | cons rightHead rightRest =>
          have ⟨leftBelow, leftLater⟩ := List.pairwise_cons.mp leftSorted
          have ⟨rightBelow, rightLater⟩ := List.pairwise_cons.mp rightSorted
          have notLess : ¬ leftHead.1 < rightHead.1 := fun less => by
            have absent : find? leftHead.1 (rightHead :: rightRest) = none :=
              find?_eq_none_of_below fun entry member => by
                rcases List.mem_cons.mp member with here | after
                · exact here ▸ less
                · exact String.lt_trans less (rightBelow entry after)
            have found := same leftHead.1
            rw [absent] at found
            simp [find?] at found
          have notGreater : ¬ rightHead.1 < leftHead.1 := fun less => by
            have absent : find? rightHead.1 (leftHead :: leftRest) = none :=
              find?_eq_none_of_below fun entry member => by
                rcases List.mem_cons.mp member with here | after
                · exact here ▸ less
                · exact String.lt_trans less (leftBelow entry after)
            have found := same rightHead.1
            rw [absent] at found
            simp [find?] at found
          have keys : leftHead.1 = rightHead.1 :=
            String.le_antisymm notGreater notLess
          have values : leftHead.2 = rightHead.2 := by
            have found := same leftHead.1
            simpa [find?, keys] using found
          have heads : leftHead = rightHead := Prod.ext keys values
          subst heads
          congr 1
          refine ih leftLater rightLater fun key => ?_
          by_cases here : leftHead.1 = key
          · subst here
            rw [find?_eq_none_of_below leftBelow, find?_eq_none_of_below rightBelow]
          · simpa [find?, here] using same key

end Ascending

/-! ## Tables -/

/-- An ascending listing of keys with their values. -/
structure Table (α : Type) where
  entries : List (String × α)
  sorted : Ascending.Sorted entries

namespace Table

variable {α : Type}

/-- The table without keys. -/
def empty : Table α := ⟨[], List.Pairwise.nil⟩

/-- The value under a key. -/
def get? (table : Table α) (key : String) : Option α :=
  Ascending.find? key table.entries

/-- The table with a value under a key. -/
def put (table : Table α) (key : String) (value : α) : Table α :=
  ⟨Ascending.put key value table.entries, Ascending.sorted_put key value table.sorted⟩

/-- The keys, in order. -/
def keys (table : Table α) : List String :=
  table.entries.map (·.1)

@[simp]
theorem get?_empty (key : String) : (empty : Table α).get? key = none := rfl

theorem get?_put (table : Table α) (key : String) (value : α) (sought : String) :
    (table.put key value).get? sought =
      if key = sought then some value else table.get? sought :=
  Ascending.find?_put key value table.entries sought

/-- The keys are those that hold a value. -/
theorem mem_keys_iff {table : Table α} {key : String} :
    key ∈ table.keys ↔ ∃ value, table.get? key = some value :=
  Ascending.mem_keys_iff

/-- A table is determined by the values it holds. -/
theorem ext_get? {left right : Table α} (same : ∀ key, left.get? key = right.get? key) :
    left = right := by
  obtain ⟨leftEntries, leftSorted⟩ := left
  obtain ⟨rightEntries, rightSorted⟩ := right
  have entries : leftEntries = rightEntries :=
    Ascending.eq_of_find? leftSorted rightSorted same
  subst entries
  rfl

end Table

end ConvergentStore
