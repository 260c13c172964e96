import ConvergentStore.Text.Utf8
import Mathlib.Tactic.IntervalCases

/-!
# Reading UTF-8 back

Every text is read back from its bytes, unless it begins with a byte order
mark, which reading drops. The proof goes character by character, and within a
character by the number of its bytes: the first byte says which bytes may come
next, and the bytes that are written are among them.
-/

namespace ConvergentStore.Text.Utf8

/-! ## Bytes -/

/-- A byte that continues a character, holding its six lowest bits. -/
theorem toNat_tail (n : Nat) : (UInt8.ofNat (0x80 + n % 64)).toNat = 0x80 + n % 64 := by
  rw [UInt8.toNat_ofNat']
  omega

theorem toNat_lead {n : Nat} (small : n < 256) : (UInt8.ofNat n).toNat = n := by
  rw [UInt8.toNat_ofNat']
  omega

theorem decodeFrom_cons {begun left : Option Begun} {byte : UInt8} {written : List Char}
    (read : next begun byte.toNat = (written, left)) (rest : List UInt8) :
    decodeFrom begun (byte :: rest) = written ++ decodeFrom left rest := by
  rw [decodeFrom, read]

/-- A byte in its range continues a character that needs more than one byte. -/
theorem next_further {bits further low high byte : Nat} (above : low ≤ byte)
    (below : byte ≤ high) :
    next (some ⟨bits, further + 1, low, high⟩) byte =
      ([], some ⟨64 * bits + (byte - 0x80), further, 0x80, 0xBF⟩) := by
  simp [next, above, below, Begun.continued]

/-- A byte in its range ends a character that needs one more byte. -/
theorem next_last {bits low high byte : Nat} (above : low ≤ byte) (below : byte ≤ high) :
    next (some ⟨bits, 0, low, high⟩) byte = ([characterOf (64 * bits + (byte - 0x80))], none) := by
  simp [next, above, below, Begun.continued]

/-! ## First bytes -/

theorem start_two {lead : Nat} (above : 0xC2 ≤ lead) (below : lead ≤ 0xDF) :
    start lead = ([], some ⟨lead - 0xC0, 0, 0x80, 0xBF⟩) := by
  have large : ¬ lead < 0x80 := by omega
  simp [start, large, above, below]

/-- After the first of three bytes two ranges are narrowed: no short forms, no halves of pairs. -/
theorem start_three {lead : Nat} (above : 0xE0 ≤ lead) (below : lead ≤ 0xEF) :
    start lead = ([], some ⟨lead - 0xE0, 1, if lead = 0xE0 then 0xA0 else 0x80,
      if lead = 0xED then 0x9F else 0xBF⟩) := by
  interval_cases lead <;> rfl

/-- After the first of four bytes two ranges are narrowed: no short forms, no codes too large. -/
theorem start_four {lead : Nat} (above : 0xF0 ≤ lead) (below : lead ≤ 0xF4) :
    start lead = ([], some ⟨lead - 0xF0, 2, if lead = 0xF0 then 0x90 else 0x80,
      if lead = 0xF4 then 0x8F else 0xBF⟩) := by
  interval_cases lead <;> rfl

/-! ## Characters -/

theorem code_lt (c : Char) : c.toNat < 0xD800 ∨ 0xDFFF < c.toNat ∧ c.toNat < 0x110000 :=
  c.valid

theorem decodeFrom_two (c : Char) (large : 0x80 ≤ c.toNat) (small : c.toNat < 0x800)
    (rest : List UInt8) :
    decodeFrom none (.ofNat (0xC0 + c.toNat / 64) :: .ofNat (0x80 + c.toNat % 64) :: rest) =
      c :: decodeFrom none rest := by
  have first : next none (UInt8.ofNat (0xC0 + c.toNat / 64)).toNat =
      ([], some ⟨c.toNat / 64, 0, 0x80, 0xBF⟩) := by
    rw [toNat_lead (by omega)]
    show start _ = _
    rw [start_two (by omega) (by omega), Nat.add_sub_cancel_left]
  have second : next (some ⟨c.toNat / 64, 0, 0x80, 0xBF⟩)
      (UInt8.ofNat (0x80 + c.toNat % 64)).toNat = ([c], none) := by
    have code : 64 * (c.toNat / 64) + (0x80 + c.toNat % 64 - 0x80) = c.toNat := by omega
    rw [toNat_tail, next_last (by omega) (by omega), code, characterOf_toNat]
  rw [decodeFrom_cons first, decodeFrom_cons second]
  rfl

theorem decodeFrom_three (c : Char) (large : 0x800 ≤ c.toNat) (small : c.toNat < 0x10000)
    (rest : List UInt8) :
    decodeFrom none (.ofNat (0xE0 + c.toNat / 4096) :: .ofNat (0x80 + c.toNat / 64 % 64) ::
        .ofNat (0x80 + c.toNat % 64) :: rest) =
      c :: decodeFrom none rest := by
  have valid := code_lt c
  have first : next none (UInt8.ofNat (0xE0 + c.toNat / 4096)).toNat =
      ([], some ⟨c.toNat / 4096, 1, if 0xE0 + c.toNat / 4096 = 0xE0 then 0xA0 else 0x80,
        if 0xE0 + c.toNat / 4096 = 0xED then 0x9F else 0xBF⟩) := by
    rw [toNat_lead (by omega)]
    show start _ = _
    rw [start_three (by omega) (by omega), Nat.add_sub_cancel_left]
  have second : next (some ⟨c.toNat / 4096, 1,
        if 0xE0 + c.toNat / 4096 = 0xE0 then 0xA0 else 0x80,
        if 0xE0 + c.toNat / 4096 = 0xED then 0x9F else 0xBF⟩)
      (UInt8.ofNat (0x80 + c.toNat / 64 % 64)).toNat =
        ([], some ⟨c.toNat / 64, 0, 0x80, 0xBF⟩) := by
    have bits : 64 * (c.toNat / 4096) + (0x80 + c.toNat / 64 % 64 - 0x80) = c.toNat / 64 := by
      omega
    rw [toNat_tail, next_further (by split <;> omega) (by split <;> omega), bits]
  have third : next (some ⟨c.toNat / 64, 0, 0x80, 0xBF⟩)
      (UInt8.ofNat (0x80 + c.toNat % 64)).toNat = ([c], none) := by
    have code : 64 * (c.toNat / 64) + (0x80 + c.toNat % 64 - 0x80) = c.toNat := by omega
    rw [toNat_tail, next_last (by omega) (by omega), code, characterOf_toNat]
  rw [decodeFrom_cons first, decodeFrom_cons second, decodeFrom_cons third]
  rfl

theorem decodeFrom_four (c : Char) (large : 0x10000 ≤ c.toNat) (rest : List UInt8) :
    decodeFrom none (.ofNat (0xF0 + c.toNat / 262144) :: .ofNat (0x80 + c.toNat / 4096 % 64) ::
        .ofNat (0x80 + c.toNat / 64 % 64) :: .ofNat (0x80 + c.toNat % 64) :: rest) =
      c :: decodeFrom none rest := by
  have valid := code_lt c
  have first : next none (UInt8.ofNat (0xF0 + c.toNat / 262144)).toNat =
      ([], some ⟨c.toNat / 262144, 2, if 0xF0 + c.toNat / 262144 = 0xF0 then 0x90 else 0x80,
        if 0xF0 + c.toNat / 262144 = 0xF4 then 0x8F else 0xBF⟩) := by
    rw [toNat_lead (by omega)]
    show start _ = _
    rw [start_four (by omega) (by omega), Nat.add_sub_cancel_left]
  have second : next (some ⟨c.toNat / 262144, 2,
        if 0xF0 + c.toNat / 262144 = 0xF0 then 0x90 else 0x80,
        if 0xF0 + c.toNat / 262144 = 0xF4 then 0x8F else 0xBF⟩)
      (UInt8.ofNat (0x80 + c.toNat / 4096 % 64)).toNat =
        ([], some ⟨c.toNat / 4096, 1, 0x80, 0xBF⟩) := by
    have bits : 64 * (c.toNat / 262144) + (0x80 + c.toNat / 4096 % 64 - 0x80) =
        c.toNat / 4096 := by omega
    rw [toNat_tail, next_further (by split <;> omega) (by split <;> omega), bits]
  have third : next (some ⟨c.toNat / 4096, 1, 0x80, 0xBF⟩)
      (UInt8.ofNat (0x80 + c.toNat / 64 % 64)).toNat =
        ([], some ⟨c.toNat / 64, 0, 0x80, 0xBF⟩) := by
    have bits : 64 * (c.toNat / 4096) + (0x80 + c.toNat / 64 % 64 - 0x80) = c.toNat / 64 := by
      omega
    rw [toNat_tail, next_further (by omega) (by omega), bits]
  have fourth : next (some ⟨c.toNat / 64, 0, 0x80, 0xBF⟩)
      (UInt8.ofNat (0x80 + c.toNat % 64)).toNat = ([c], none) := by
    have code : 64 * (c.toNat / 64) + (0x80 + c.toNat % 64 - 0x80) = c.toNat := by omega
    rw [toNat_tail, next_last (by omega) (by omega), code, characterOf_toNat]
  rw [decodeFrom_cons first, decodeFrom_cons second, decodeFrom_cons third,
    decodeFrom_cons fourth]
  rfl

/-- Every character is read back from its bytes, whatever follows. -/
theorem decodeFrom_encodeChar (c : Char) (rest : List UInt8) :
    decodeFrom none (encodeChar c ++ rest) = c :: decodeFrom none rest := by
  simp only [encodeChar]
  split
  · next small =>
      have first : next none (UInt8.ofNat c.toNat).toNat = ([c], none) := by
        rw [toNat_lead (by omega)]
        simp [next, start, small]
      exact decodeFrom_cons first rest
  split
  · next large small => exact decodeFrom_two c (by omega) small rest
  split
  · next large small => exact decodeFrom_three c (by omega) small rest
  · next large => exact decodeFrom_four c (by omega) rest

/-! ## Texts -/

theorem decodeFrom_encode (text : List Char) : decodeFrom none (encode text) = text := by
  induction text with
  | nil => rfl
  | cons c text ih =>
      rw [encode, List.flatMap_cons, decodeFrom_encodeChar]
      exact congrArg (c :: ·) ih

theorem encode_injective : Function.Injective encode := by
  intro left right equal
  rw [← decodeFrom_encode left, equal, decodeFrom_encode right]

/-- A text that begins with no byte order mark is read back from its bytes. -/
theorem decode_encode {text : List Char} (unmarked : text.head? ≠ some '\uFEFF') :
    decode (encode text) = text := by
  have kept : dropMark (encode text) = encode text := by
    unfold dropMark
    split
    · next rest marked =>
        have read := decodeFrom_encode text
        have mark : encodeChar '\uFEFF' = [0xEF, 0xBB, 0xBF] := by decide
        have first := decodeFrom_encodeChar '\uFEFF' rest
        rw [mark] at first
        rw [marked] at read
        have head : text = '\uFEFF' :: decodeFrom none rest := read.symm.trans first
        exact absurd (congrArg List.head? head) unmarked
    · rfl
  rw [decode, kept, decodeFrom_encode]

end ConvergentStore.Text.Utf8
