import ConvergentStore.Json.Value
import Mathlib.Data.List.Induction
import Mathlib.Data.List.Nodup
import Mathlib.Data.List.Perm.Basic

/-!
# Members of objects

An object that has been read has one member for each key that is written in it,
and the value of that member is the last one that is written under the key. Of
members with different keys the order does not matter, and neither do members
under other keys than the one that is looked up.
-/

namespace ConvergentStore.Json

/-! ## Looking up -/

/-- The members have different keys. -/
def Distinct (members : List (String × Json)) : Prop :=
  (members.map Prod.fst).Nodup

/-- An object, if the value is one, has members with different keys. -/
def KeysDiffer : Json → Prop
  | .object members => Distinct members
  | _ => True

theorem mem_of_member? {key : String} {value : Json} {members : List (String × Json)}
    (found : member? key members = some value) : (key, value) ∈ members := by
  fun_induction member? key members with
  | case1 => cases found
  | case2 =>
      cases found
      exact List.mem_cons_self
  | case3 _ _ _ _ ih => exact List.mem_cons_of_mem _ (ih found)

/-- Under different keys, the members are what is found under their keys. -/
theorem Distinct.member?_eq_some_iff {members : List (String × Json)} (distinct : Distinct members)
    {key : String} {value : Json} :
    member? key members = some value ↔ (key, value) ∈ members := by
  refine ⟨mem_of_member?, ?_⟩
  intro member
  induction members with
  | nil => cases member
  | cons first rest ih =>
      rcases first with ⟨stored, old⟩
      rw [Distinct, List.map_cons, List.nodup_cons] at distinct
      rcases List.mem_cons.mp member with equal | later
      · cases equal
        simp [member?]
      · have other : stored ≠ key := by
          rintro rfl
          exact distinct.1 (List.mem_map.mpr ⟨_, later, rfl⟩)
        rw [member?, if_neg other]
        exact ih distinct.2 later

theorem Distinct.perm {members others : List (String × Json)} (distinct : Distinct members)
    (perm : others.Perm members) : Distinct others :=
  (perm.map Prod.fst).nodup_iff.mpr distinct

theorem Distinct.member?_perm {members others : List (String × Json)}
    (distinct : Distinct members) (perm : others.Perm members) (key : String) :
    member? key others = member? key members := by
  refine Option.ext fun value => ?_
  rw [distinct.member?_eq_some_iff, (distinct.perm perm).member?_eq_some_iff, perm.mem_iff]

/-- Members under other keys do not matter. -/
theorem member?_filter (key : String) (members : List (String × Json)) :
    member? key (members.filter (·.1 = key)) = member? key members := by
  induction members with
  | nil => rfl
  | cons first rest ih =>
      rcases first with ⟨stored, value⟩
      by_cases same : stored = key
      · simp [member?, same]
      · simp [member?, same, ih]

/-- Neither the order of members with different keys matters, nor what stands under other keys. -/
theorem Distinct.member?_perm_append
    {members others extra : List (String × Json)}
    (distinct : Distinct members)
    (perm : others.Perm (members ++ extra))
    {key : String}
    (absent : ∀ member ∈ extra, member.1 ≠ key) :
    member? key others = member? key members := by
  have without : extra.filter (·.1 = key) = [] := by
    simpa [List.filter_eq_nil_iff] using absent
  have same : (others.filter (·.1 = key)).Perm (members.filter (·.1 = key)) := by
    have filtered := perm.filter (·.1 = key)
    rwa [List.filter_append, without, List.append_nil] at filtered
  have kept : Distinct (members.filter (·.1 = key)) :=
    distinct.sublist (List.filter_sublist.map Prod.fst)
  rw [← member?_filter key others, kept.member?_perm same, member?_filter]

/-! ## Putting members together -/

/-- The members that an object has of those that are written, the last one under each key. -/
def kept (members : List (String × Json)) : List (String × Json) :=
  members.foldl (fun kept (key, value) => putMember key value kept) []

theorem ofMembers_eq (members : List (String × Json)) :
    ofMembers members = .object (kept members) := rfl

theorem kept_concat (members : List (String × Json)) (key : String) (value : Json) :
    kept (members ++ [(key, value)]) = putMember key value (kept members) := by
  simp [kept]

theorem member?_putMember (key put : String) (value : Json) (members : List (String × Json)) :
    member? key (putMember put value members) =
      if put = key then some value else member? key members := by
  fun_induction putMember put value members with
  | case1 => simp [member?]
  | case2 old rest => by_cases same : put = key <;> simp [member?, same]
  | case3 stored old rest different ih =>
      by_cases here : stored = key
      · have other : put ≠ key := fun same => different (here.trans same.symm)
        simp [member?, here, other]
      · simp [member?, here, ih]

theorem map_fst_putMember (key : String) (value : Json) (members : List (String × Json)) :
    (putMember key value members).map Prod.fst =
      if key ∈ members.map Prod.fst then members.map Prod.fst
      else members.map Prod.fst ++ [key] := by
  fun_induction putMember key value members with
  | case1 => simp
  | case2 => simp
  | case3 stored old rest different ih =>
      have other : key ≠ stored := fun same => different same.symm
      by_cases later : key ∈ rest.map Prod.fst
      · simp only [List.map_cons, ih, later, if_true, List.mem_cons, or_true]
      · simp only [List.map_cons, ih, later, if_false, List.mem_cons, other, or_self,
          List.cons_append]

/-- An object has one member for each key. -/
theorem distinct_kept (members : List (String × Json)) : Distinct (kept members) := by
  induction members using List.reverseRecOn with
  | nil => exact List.nodup_nil
  | append_singleton members last ih =>
      rcases last with ⟨key, value⟩
      rw [kept_concat, Distinct, map_fst_putMember]
      split
      · exact ih
      · next fresh => exact List.nodup_append.mpr ⟨ih, List.nodup_singleton key, by grind⟩

/-- What an object has under a key is the last value that is written under it. -/
theorem member?_kept (key : String) (members : List (String × Json)) :
    member? key (kept members) = member? key members.reverse := by
  induction members using List.reverseRecOn with
  | nil => rfl
  | append_singleton members last ih =>
      rcases last with ⟨put, value⟩
      rw [kept_concat, member?_putMember, List.reverse_concat, member?, ih]

end ConvergentStore.Json
