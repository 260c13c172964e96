import ConvergentStore.Json.Value
import ConvergentStore.Operation.Basic

/-!
# Guards

A replicated value carries two marks, that of all replicated values and that of
its family. A guard looks for one mark and for nothing else, so what names an
operation that it accepts, but carries no mark, passes no guard.
-/

namespace ConvergentStore

/-- What a guard looks for. -/
inductive Mark where
  /-- The mark of all replicated values. -/
  | replicated
  /-- The mark of the values of one family. -/
  | of (family : Family)
  deriving DecidableEq

namespace Family

/-- The marks that a value of a family carries. -/
def marks (family : Family) : List Mark :=
  [.replicated, .of family]

/-- What a value of a family shows of itself, whatever keys it holds. -/
def shown (family : Family) : String :=
  (Json.object [("accepts", .text family.operationName)]).compact

end Family

/-- Whether a value passes a guard; one that is of no family carries no mark. -/
def Mark.guards (mark : Mark) : Option Family → Bool
  | some family => family.marks.contains mark
  | none => false

/-- The guard of a family lets through the values of this family and no others. -/
theorem Mark.of_guards_iff {family : Family} {value : Option Family} :
    (Mark.of family).guards value = true ↔ value = some family := by
  cases value with
  | none => simp [guards]
  | some other => simp [guards, Family.marks, eq_comm]

/-- What the common guard lets through, the guard of exactly one family does as well. -/
theorem Mark.replicated_guards_iff {value : Option Family} :
    Mark.replicated.guards value = true ↔
      ∃ family, ∀ other, (Mark.of other).guards value = true ↔ other = family := by
  simp only [of_guards_iff]
  cases value with
  | none => simp [guards]
  | some family =>
      refine iff_of_true rfl ⟨family, fun other => ?_⟩
      rw [Option.some.injEq, eq_comm]

end ConvergentStore
