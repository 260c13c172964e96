import ConvergentStore.Cipher
import ConvergentStore.Proofs.Text.Base64
import ConvergentStore.Proofs.Text.Separator
import ConvergentStore.Proofs.Text.Utf8

/-!
# Sealed text

A text sealed with the name of a key is taken for encrypted, is disclosed to
that key and refused to every other one. The name of a key may contain the
separator: in base64 it has no question mark, and neither has the text.
-/

namespace ConvergentStore.Cipher

theorem question_not_mem_armoured (text : String) : '?' ∉ armoured text := by
  intro member
  exact (Text.Base64.ne_of_mem_encode member).2.2 rfl

theorem armoured_injective : Function.Injective armoured := by
  intro left right equal
  have bytes := Text.Base64.encode_injective equal
  exact String.toList_inj.mp (Text.Utf8.encode_injective bytes)

theorem vectorSeparator_toList : vectorSeparator.toList = ['?', 'i', 'v', '='] := by
  decide

/-- Sealed text is cut into the hidden text and the name of the key. -/
theorem cut_enclose (plaintext key : String) :
    Text.cut vectorSeparator.toList (enclose plaintext key).toList =
      (armoured plaintext, some (armoured key)) := by
  rw [enclose, String.toList_ofList, vectorSeparator_toList]
  exact Text.cut_append (question_not_mem_armoured plaintext) _

/-- Sealed text is taken for encrypted. -/
theorem hasVectorSeparator_enclose (plaintext key : String) :
    hasVectorSeparator (enclose plaintext key) = true := by
  rw [hasVectorSeparator, Text.contains, cut_enclose]
  rfl

theorem cut_armoured (key : String) :
    Text.cut vectorSeparator.toList (armoured key) = (armoured key, none) := by
  rw [vectorSeparator_toList]
  exact Text.cut_of_not_mem (question_not_mem_armoured key)

/-- Sealed text is disclosed to its key, unless it begins with a byte order mark. -/
theorem disclose_enclose {plaintext : String} (key : String)
    (unmarked : plaintext.toList.head? ≠ some '\uFEFF') :
    disclose (enclose plaintext key) key = .ok plaintext := by
  have bytes : Text.Base64.decode? (armoured plaintext) =
      some (Text.Utf8.encode plaintext.toList) := Text.Base64.decode?_encode _
  simp only [disclose, cut_enclose, cut_armoured, Option.map_some, ↓reduceIte, bytes,
    Text.Utf8.decode_encode unmarked, String.ofList_toList]

/-- Sealed text is refused to every other key. -/
theorem disclose_enclose_of_ne (plaintext : String) {key other : String} (apart : other ≠ key) :
    disclose (enclose plaintext key) other = .error ⟨"Wrong key for ciphertext"⟩ := by
  have names : armoured key ≠ armoured other := fun equal => apart (armoured_injective equal).symm
  simp [disclose, cut_enclose, cut_armoured, names]

/-- Of a text that begins with a brace nothing is disclosed, as it is no base64. -/
theorem disclose_of_brace {text : String} (opening : text.toList.head? = some '\x7b')
    (key : String) :
    ∃ cause, disclose text key = .error cause := by
  rcases List.head?_eq_some_iff.mp opening with ⟨rest, content⟩
  have body : (Text.cut vectorSeparator.toList text.toList).1 =
      '\x7b' :: (Text.cut vectorSeparator.toList rest).1 := by
    rw [content, vectorSeparator_toList, Text.cut, Text.afterSeparator?_of_ne (by decide)]
  have unread := Text.Base64.decode?_cons_of_value?_eq_none
    (show Text.Base64.value? '\x7b' = none by decide) (by decide)
    (Text.cut vectorSeparator.toList rest).1
  unfold disclose
  dsimp only
  rw [body, unread]
  split <;> exact ⟨_, rfl⟩

end ConvergentStore.Cipher
