/-!
# Code points

Characters by their number, with the replacement character for numbers that
name none.
-/

namespace ConvergentStore.Text

/-- The character that stands for what is no character. -/
def replacement : Char := '\uFFFD'

/-- The character of a code point, or the replacement character. -/
def characterOf (code : Nat) : Char :=
  if valid : code.isValidChar then Char.ofNatAux code valid else replacement

@[simp]
theorem characterOf_toNat (c : Char) : characterOf c.toNat = c := by
  have valid : c.toNat.isValidChar := c.valid
  rw [characterOf, dif_pos valid]
  exact Char.ext (UInt32.toNat_inj.mp rfl)

end ConvergentStore.Text
