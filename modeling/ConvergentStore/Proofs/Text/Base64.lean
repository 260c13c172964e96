import ConvergentStore.Text.Base64
import Mathlib.Order.Nat

/-!
# Reading base64 back

Every row of bytes is read back from its text. The text has no line ends, so
that reading skips nothing of it, and no question mark, so that it can stand
before a separator that begins with one.
-/

namespace ConvergentStore.Text.Base64

/-! ## Alphabet -/

theorem value?_digit {n : Nat} (small : n < 64) : value? (digit n) = some n := by
  revert n
  decide

theorem digit_ne {n : Nat} (small : n < 64) :
    digit n ≠ '=' ∧ digit n ≠ '\n' ∧ digit n ≠ '\r' ∧ digit n ≠ '?' := by
  revert n
  decide

/-! ## Groups -/

/-- A full group is read before whatever follows it. -/
theorem groups?_full {a b c d : Nat} (aSmall : a < 64) (bSmall : b < 64) (cSmall : c < 64)
    (dSmall : d < 64) (rest : List Char) :
    groups? (digit a :: digit b :: digit c :: digit d :: rest) =
      (groups? rest).map fun bytes =>
        .ofNat (4 * a + b / 16) :: .ofNat (16 * (b % 16) + c / 4) ::
          .ofNat (64 * (c % 4) + d) :: bytes := by
  rw [groups?]
  · rw [value?_digit aSmall, value?_digit bSmall, value?_digit cSmall, value?_digit dSmall]
    cases groups? rest <;> rfl
  · intro filler _ _
    exact (digit_ne cSmall).1 filler
  · intro filler _
    exact (digit_ne dSmall).1 filler

theorem groups?_two {a b c : Nat} (aSmall : a < 64) (bSmall : b < 64) (cSmall : c < 64) :
    groups? [digit a, digit b, digit c, '='] =
      some [.ofNat (4 * a + b / 16), .ofNat (16 * (b % 16) + c / 4)] := by
  rw [groups?]
  · rw [value?_digit aSmall, value?_digit bSmall, value?_digit cSmall]
  · exact (digit_ne cSmall).1

theorem groups?_one {a b : Nat} (aSmall : a < 64) (bSmall : b < 64) :
    groups? [digit a, digit b, '=', '='] = some [.ofNat (4 * a + b / 16)] := by
  rw [groups?, value?_digit aSmall, value?_digit bSmall]

theorem ofNat_eq (byte : UInt8) {n : Nat} (equal : n = byte.toNat) : UInt8.ofNat n = byte := by
  rw [equal, UInt8.ofNat_toNat]

/-- Every row of bytes is read back from its groups. -/
theorem groups?_encode (bytes : List UInt8) : groups? (encode bytes) = some bytes := by
  fun_induction encode bytes with
  | case1 => rfl
  | case2 a bits =>
      have small := a.toNat_lt
      rw [groups?_one (by omega) (by omega), ofNat_eq a (by omega)]
  | case3 a b bits =>
      have aSmall := a.toNat_lt
      have bSmall := b.toNat_lt
      rw [groups?_two (by omega) (by omega) (by omega), ofNat_eq a (by omega),
        ofNat_eq b (by omega)]
  | case4 a b c rest bits ih =>
      have aSmall := a.toNat_lt
      have bSmall := b.toNat_lt
      have cSmall := c.toNat_lt
      rw [groups?_full (by omega) (by omega) (by omega) (by omega), ih,
        ofNat_eq a (by omega), ofNat_eq b (by omega),
        ofNat_eq c (by omega)]
      rfl

/-! ## Texts -/

/-- The characters of a text in base64: digits and fillers. -/
theorem mem_encode {bytes : List UInt8} {c : Char} (member : c ∈ encode bytes) :
    c = '=' ∨ ∃ n < 64, c = digit n := by
  fun_induction encode bytes with
  | case1 => cases member
  | case2 a bits =>
      have small := a.toNat_lt
      simp only [List.mem_cons, List.not_mem_nil, or_false] at member
      rcases member with rfl | rfl | rfl | rfl
      · exact .inr ⟨_, by omega, rfl⟩
      · exact .inr ⟨_, by omega, rfl⟩
      · exact .inl rfl
      · exact .inl rfl
  | case3 a b bits =>
      have aSmall := a.toNat_lt
      have bSmall := b.toNat_lt
      simp only [List.mem_cons, List.not_mem_nil, or_false] at member
      rcases member with rfl | rfl | rfl | rfl
      · exact .inr ⟨_, by omega, rfl⟩
      · exact .inr ⟨_, by omega, rfl⟩
      · exact .inr ⟨_, by omega, rfl⟩
      · exact .inl rfl
  | case4 a b c rest bits ih =>
      have aSmall := a.toNat_lt
      have bSmall := b.toNat_lt
      have cSmall := c.toNat_lt
      simp only [List.mem_cons] at member
      rcases member with rfl | rfl | rfl | rfl | later
      · exact .inr ⟨_, by omega, rfl⟩
      · exact .inr ⟨_, by omega, rfl⟩
      · exact .inr ⟨_, by omega, rfl⟩
      · exact .inr ⟨_, by omega, rfl⟩
      · exact ih later

theorem ne_of_mem_encode {bytes : List UInt8} {c : Char} (member : c ∈ encode bytes) :
    c ≠ '\n' ∧ c ≠ '\r' ∧ c ≠ '?' := by
  rcases mem_encode member with rfl | ⟨n, small, rfl⟩
  · decide
  · exact (digit_ne small).2

/-- A text that begins with a character outside the alphabet is not read, unless it ends a line. -/
theorem decode?_cons_of_value?_eq_none {c : Char} (foreign : value? c = none)
    (kept : (c != '\n' && c != '\r') = true) (rest : List Char) :
    decode? (c :: rest) = none := by
  rw [decode?, List.filter_cons, if_pos kept, groups?.eq_def]
  split <;> simp_all

/-- Every row of bytes is read back from its text. -/
theorem decode?_encode (bytes : List UInt8) : decode? (encode bytes) = some bytes := by
  have kept : (encode bytes).filter (fun c => c != '\n' && c != '\r') = encode bytes := by
    rw [List.filter_eq_self]
    intro c member
    rcases ne_of_mem_encode member with ⟨notFeed, notReturn, _⟩
    simp [notFeed, notReturn]
  rw [decode?, kept, groups?_encode]

theorem encode_injective : Function.Injective encode := by
  intro left right equal
  have read := decode?_encode left
  rw [equal, decode?_encode] at read
  exact (Option.some.inj read).symm

end ConvergentStore.Text.Base64
