import ConvergentStore.Replica.Exchange
import ConvergentStore.Text.Quoted

/-!
# Keys that are no text

A key is a sequence of 16-bit units, and two units can be the halves of one
character. A half that stands alone belongs to no character; keys may hold such
halves, and are told apart by their units. Where characters are asked for, as in
writing a key down as bytes, a half that stands alone is read as the replacement
character.

A replica deals with such keys as it does with texts, but its cipher is given
the key itself, whatever text names it in messages and reports.
-/

namespace ConvergentStore

/-! ## Keys -/

/-- A key, as a sequence of 16-bit units. -/
structure Key where
  units : List UInt16
  deriving DecidableEq

namespace Key

/-- The units of a character: one, or the two halves of one that does not fit into one. -/
def unitsOf (c : Char) : List UInt16 :=
  if c.toNat < 0x10000 then [.ofNat c.toNat]
  else
    [.ofNat (0xD800 + (c.toNat - 0x10000) / 0x400),
      .ofNat (0xDC00 + (c.toNat - 0x10000) % 0x400)]

/-- The key that is a text. -/
def ofText (text : String) : Key :=
  ⟨text.toList.flatMap unitsOf⟩

/-- The characters of a key, halves that stand alone replaced. -/
def text (key : Key) : String :=
  String.ofList (Text.Quoted.assemble (key.units.map fun unit => .unit unit.toNat))

end Key

/-! ## Ciphers -/

/-- A way to hide the content of messages for keys. -/
structure KeyCipher where
  /-- Whether content is encrypted. -/
  recognises : (content : String) → Bool
  /-- Plain text hidden for a recipient. -/
  encrypt : (plaintext : String) → (recipient : Key) → Except CipherFault String
  /-- The plain text of content from a sender. -/
  decrypt : (ciphertext : String) → (sender : Key) → Except CipherFault String

/-- A cipher that writes keys down, and so reads them as text first. -/
def Cipher.onKeys (cipher : Cipher) : KeyCipher where
  recognises := cipher.recognises
  encrypt := fun plaintext recipient => cipher.encrypt plaintext recipient.text
  decrypt := fun ciphertext sender => cipher.decrypt ciphertext sender.text

/-- A cipher as it deals with one key, whatever text stands for that key. -/
def KeyCipher.facing (cipher : KeyCipher) (key : Key) : Cipher where
  recognises := cipher.recognises
  encrypt := fun plaintext _ => cipher.encrypt plaintext key
  decrypt := fun ciphertext _ => cipher.decrypt ciphertext key

/-! ## Replicas -/

/-- What a replica is set up with, the keys of which need not be texts. -/
structure Keyholder where
  settings : Settings
  cipher : KeyCipher
  /-- The key of the session, if it has one. -/
  key? : Option Key

namespace Keyholder

/--
The profile of a replica that deals with one key: the one it publishes with for
its own key, and takes the messages of a sender with for that of the sender.
-/
def facing (holder : Keyholder) (key : Key) : Profile :=
  ⟨holder.settings, holder.cipher.facing key, .owner key.text⟩

/-- The message that carries an operation, encrypted for the key of the session. -/
def prepare (holder : Keyholder) (operation : Operation) : Except Fault Outbound :=
  match holder.key? with
  | some key => (holder.facing key).prepare operation
  | none => .error .keyless

end Keyholder

end ConvergentStore
