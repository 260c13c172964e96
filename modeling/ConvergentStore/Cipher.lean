import ConvergentStore.Text.Base64
import ConvergentStore.Text.Separator
import ConvergentStore.Text.Utf8

/-!
# Ciphers

A cipher hides the content of messages. It says which content it takes for
encrypted, encrypts for the key of a recipient and decrypts with the key of a
sender. Three ciphers are at hand: one that hides nothing, one that seals text
with the name of a key, and one that can do neither.
-/

namespace ConvergentStore

/-- Why content could not be encrypted or decrypted. -/
structure CipherFault where
  message : String
  deriving DecidableEq

/-- The label of faults of ciphers. -/
def CipherFault.kind : String := "CipherError"

/-- A way to hide the content of messages. -/
structure Cipher where
  /-- Whether content is encrypted. -/
  recognises : (content : String) → Bool
  /-- Plain text hidden for a recipient. -/
  encrypt : (plaintext recipient : String) → Except CipherFault String
  /-- The plain text of content from a sender. -/
  decrypt : (ciphertext sender : String) → Except CipherFault String

namespace Cipher

/-- What stands between hidden text and the vector it was hidden with. -/
def vectorSeparator : String := "?iv="

/-- Whether content holds hidden text and a vector. -/
def hasVectorSeparator (content : String) : Bool :=
  Text.contains vectorSeparator.toList content.toList

/-- The cipher that hides nothing and takes nothing for encrypted. -/
def plain : Cipher where
  recognises := fun _ => false
  encrypt := fun plaintext _ => .ok plaintext
  decrypt := fun ciphertext _ => .ok ciphertext

/-! ## Sealing -/

/-- A text in base64, by way of UTF-8. -/
def armoured (text : String) : List Char :=
  Text.Base64.encode (Text.Utf8.encode text.toList)

/-- A text sealed with the name of a key: both in base64, with the separator between them. -/
def enclose (plaintext key : String) : String :=
  String.ofList (armoured plaintext ++ vectorSeparator.toList ++ armoured key)

/-- The text sealed with the name of a key. What follows a second separator is not looked at. -/
def disclose (ciphertext key : String) : Except CipherFault String :=
  let (body, sealed?) := Text.cut vectorSeparator.toList ciphertext.toList
  let name? := sealed?.map fun rest => (Text.cut vectorSeparator.toList rest).1
  if name? = some (armoured key) then
    match Text.Base64.decode? body with
    | some bytes => .ok (String.ofList (Text.Utf8.decode bytes))
    | none => .error ⟨"Ciphertext is not base64"⟩
  else .error ⟨"Wrong key for ciphertext"⟩

/-- The cipher that seals text with the name of the recipient's key. -/
def sealing : Cipher where
  recognises := hasVectorSeparator
  encrypt := fun plaintext recipient => .ok (enclose plaintext recipient)
  decrypt := disclose

/-! ## Refusing -/

/-- The cipher that takes content with a leading exclamation mark for encrypted and has no keys. -/
def refusing : Cipher where
  recognises := fun content => content.toList.head? = some '!'
  encrypt := fun _ recipient => .error ⟨"no encryption for " ++ recipient⟩
  decrypt := fun _ sender => .error ⟨"no decryption for " ++ sender⟩

end Cipher

end ConvergentStore
