import ConvergentStore.Proofs.Replica.Delivery
import ConvergentStore.Proofs.Text.Quoted
import ConvergentStore.Replica.Key

/-!
# Keys and texts

The keys that are texts are read as these texts, and told apart by them. A
replica whose cipher writes keys down deals with a key as the profile does that
has the text of the key for its own, so what is sealed for a key reaches those
whose keys read like it, and is withheld from all others (`delivery_from_key`).
-/

namespace ConvergentStore

namespace Key

open Text.Quoted (Element assemble assemble_unit isHigh isLow paired)

theorem toNat_unit {n : Nat} (small : n < 0x10000) : (UInt16.ofNat n).toNat = n :=
  UInt16.toNat_ofNat_of_lt' small

/-- The units of a character are read as this character, whatever follows them. -/
theorem assemble_unitsOf (c : Char) (elements : List Element) :
    assemble ((unitsOf c).map (fun unit => .unit unit.toNat) ++ elements) =
      c :: assemble elements := by
  have valid : c.toNat < 0xD800 ∨ 0xDFFF < c.toNat ∧ c.toNat < 0x110000 := c.valid
  unfold unitsOf
  split
  · next single =>
      have whole : isHigh c.toNat = false := by
        simp only [isHigh, Bool.and_eq_false_iff, decide_eq_false_iff_not]
        omega
      rw [List.map_singleton, toNat_unit single, List.singleton_append, assemble_unit whole,
        Text.characterOf_toNat]
  · next double =>
      generalize offset : c.toNat - 0x10000 = rest
      have code : c.toNat = 0x10000 + rest := by omega
      have high : (UInt16.ofNat (0xD800 + rest / 0x400)).toNat = 0xD800 + rest / 0x400 :=
        toNat_unit (by omega)
      have low : (UInt16.ofNat (0xDC00 + rest % 0x400)).toNat = 0xDC00 + rest % 0x400 :=
        toNat_unit (by omega)
      have halves : (isHigh (0xD800 + rest / 0x400) && isLow (0xDC00 + rest % 0x400)) = true := by
        simp only [isHigh, isLow, Bool.and_eq_true, decide_eq_true_eq]
        omega
      have joined : paired (0xD800 + rest / 0x400) (0xDC00 + rest % 0x400) = c.toNat := by
        unfold paired
        omega
      simp only [List.map_cons, List.map_nil, high, low, List.cons_append, List.nil_append,
        assemble, halves, joined, Text.characterOf_toNat, ↓reduceIte]

/-- A text is read back from its units. -/
@[simp]
theorem text_ofText (text : String) : (ofText text).text = text := by
  have characters : ∀ cs : List Char,
      assemble ((cs.flatMap unitsOf).map fun unit => .unit unit.toNat) = cs := by
    intro cs
    induction cs with
    | nil => rfl
    | cons c rest ih => rw [List.flatMap_cons, List.map_append, assemble_unitsOf, ih]
  rw [Key.text, ofText, characters, String.ofList_toList]

/-- Whether a key is a text, with no half of a character that stands alone. -/
def IsText (key : Key) : Prop :=
  ∃ text, key = ofText text

/-- Keys that are texts differ if and only if they read differently. -/
theorem IsText.eq_of_text_eq {key other : Key} (isText : key.IsText) (otherIsText : other.IsText)
    (same : key.text = other.text) : key = other := by
  rcases isText with ⟨text, rfl⟩
  rcases otherIsText with ⟨other, rfl⟩
  rw [text_ofText, text_ofText] at same
  rw [same]

end Key

namespace Keyholder

/-! ## Keys that are written down -/

section

variable (settings : Settings) (cipher : Cipher)

/-- A replica whose cipher writes keys down publishes as one with the text of its key. -/
theorem prepare_onKeys (key : Key) (operation : Operation) :
    prepare ⟨settings, cipher.onKeys, some key⟩ operation =
      Profile.prepare ⟨settings, cipher, .owner key.text⟩ operation :=
  rfl

/-- Such a replica takes the messages from a key as those from the text of this key. -/
theorem ingest_onKeys
    (key? : Option Key)
    (identity : Identity)
    {sender : Key}
    {message : Message}
    (named : message.sender = sender.text)
    (replica : Replica) :
    (facing ⟨settings, cipher.onKeys, key?⟩ sender).ingest message replica =
      Profile.ingest ⟨settings, cipher, identity⟩ message replica := by
  have revealed : (facing ⟨settings, cipher.onKeys, key?⟩ sender).reveal message =
      Profile.reveal ⟨settings, cipher, identity⟩ message := by
    simp only [facing, KeyCipher.facing, Cipher.onKeys, Profile.reveal, named]
  unfold Profile.ingest Profile.extract
  rw [revealed]
  rfl

end

/-! ## Delivery -/

/--
What the owner of a key publishes of an operation that it has taken passes the
filters of its channel. In the clear it has the effect of the operation on every
reachable replica of the channel, whoever sends it. Sealed, it has this effect
for the senders whose key reads like that of the owner, the owner among them;
from every other sender it is refused and changes nothing. The keys that are
texts read alike only if they are the same.
-/
theorem delivery_from_key
    {maker taker : Keyholder}
    {key : Key}
    {operation : Operation}
    {before after : Replica}
    (owner : maker.key? = some key)
    (kind : maker.settings.kind.equals taker.settings.kind = true)
    (marker : maker.settings.marker = taker.settings.marker)
    (accepted : before.apply operation = .ok after) :
    (∀ outbound id sender, maker.prepare operation = .ok outbound →
      (taker.facing sender).filter.admits (outbound.toMessage id sender.text) = true) ∧
    (maker.cipher = Cipher.plain.onKeys → taker.cipher = Cipher.plain.onKeys →
      ∃ outbound, maker.prepare operation = .ok outbound ∧
        ∀ id sender replica, replica.Reachable →
          (taker.facing sender).HasEffect (outbound.toMessage id sender.text) operation
            replica) ∧
    (maker.cipher = Cipher.sealing.onKeys → taker.cipher = Cipher.sealing.onKeys →
      ∃ outbound, maker.prepare operation = .ok outbound ∧
        ∀ id sender replica, replica.Reachable →
          (sender.text = key.text →
            (taker.facing sender).HasEffect (outbound.toMessage id sender.text) operation
              replica) ∧
          (sender.text ≠ key.text →
            (taker.facing sender).Withholds (outbound.toMessage id sender.text) replica) ∧
          (sender ≠ key → sender.IsText → key.IsText →
            (taker.facing sender).Withholds (outbound.toMessage id sender.text) replica)) := by
  rcases maker with ⟨settings, makerCipher, key?⟩
  rcases taker with ⟨takerSettings, takerCipher, takerKey?⟩
  obtain rfl : key? = some key := owner
  -- Where the cipher writes keys down, both are profiles that have texts for keys.
  have holds (cipher : Cipher) :
      Profile.identity ⟨settings, cipher, .owner key.text⟩ = .owner key.text := rfl
  have channel (cipher : Cipher) : Profile.SharesChannel ⟨settings, cipher, .owner key.text⟩
      ⟨takerSettings, cipher, .unavailable⟩ := ⟨kind, marker⟩
  refine ⟨?filter, ?plain, ?sealing⟩
  case filter =>
    intro outbound id sender made
    have shared : (facing ⟨settings, makerCipher, some key⟩ key).SharesChannel
      (facing ⟨takerSettings, takerCipher, takerKey?⟩ sender) := ⟨kind, marker⟩
    exact (Profile.delivery (holds _) shared accepted).1 outbound id sender.text made
  case plain =>
    rintro rfl rfl
    rcases (Profile.delivery (holds .plain) (channel .plain) accepted).2.1 rfl rfl with
      ⟨outbound, made, arrives⟩
    refine ⟨outbound, (prepare_onKeys settings .plain key operation).trans made, ?_⟩
    intro id sender replica reachable
    exact (arrives id sender.text replica reachable).congr
      (ingest_onKeys takerSettings .plain takerKey? .unavailable rfl replica)
  case sealing =>
    rintro rfl rfl
    rcases (Profile.delivery (holds .sealing) (channel .sealing) accepted).2.2 rfl rfl with
      ⟨outbound, made, arrives⟩
    refine ⟨outbound, (prepare_onKeys settings .sealing key operation).trans made, ?_⟩
    intro id sender replica reachable
    have same := ingest_onKeys takerSettings .sealing takerKey? .unavailable
      (show (outbound.toMessage id sender.text).sender = sender.text from rfl) replica
    have withheld : sender.text ≠ key.text →
        (facing ⟨takerSettings, Cipher.sealing.onKeys, takerKey?⟩ sender).Withholds
          (outbound.toMessage id sender.text) replica := fun apart =>
      ((arrives id sender.text replica reachable).2 apart).congr same
    refine ⟨fun alike => ((arrives id sender.text replica reachable).1 alike).congr same,
      withheld, ?_⟩
    intro apart isText keyIsText
    exact withheld fun alike => apart (isText.eq_of_text_eq keyIsText alike)

/-- Sealed for half of a character, an element with the separator reaches the owner's hearers. -/
theorem delivery_from_key_half :
    ∃ outbound,
      prepare ⟨.standard, Cipher.sealing.onKeys, some ⟨[0xD83D]⟩⟩ (.setAdd "k" "?iv=") =
        .ok outbound ∧
      (facing ⟨.standard, Cipher.sealing.onKeys, none⟩ ⟨[0xD83D]⟩).HasEffect
        (outbound.toMessage "1" "\uFFFD") (.setAdd "k" "?iv=") .empty ∧
      (facing ⟨.standard, Cipher.sealing.onKeys, none⟩ ⟨[0xD83D, 0xDE00]⟩).Withholds
        (outbound.toMessage "1" "😀") .empty := by
  have owner : key? ⟨.standard, Cipher.sealing.onKeys, some ⟨[0xD83D]⟩⟩ = some ⟨[0xD83D]⟩ := rfl
  have kind : (settings ⟨.standard, Cipher.sealing.onKeys, some ⟨[0xD83D]⟩⟩).kind.equals
      (settings ⟨.standard, Cipher.sealing.onKeys, none⟩).kind = true := by decide +kernel
  have half : Key.text ⟨[0xD83D]⟩ = "\uFFFD" := by decide +kernel
  have whole : Key.text ⟨[0xD83D, 0xDE00]⟩ = "😀" := by decide +kernel
  obtain ⟨_, _, sealed⟩ :=
    delivery_from_key owner kind rfl (Replica.apply_setAdd .empty "k" "?iv=")
  rcases sealed rfl rfl with ⟨outbound, made, arrives⟩
  have heard := (arrives "1" ⟨[0xD83D]⟩ .empty Replica.reachable_empty).1 rfl
  have withheld := (arrives "1" ⟨[0xD83D, 0xDE00]⟩ .empty Replica.reachable_empty).2.1
    (by rw [half, whole]; decide)
  rw [half] at heard
  rw [whole] at withheld
  exact ⟨outbound, made, heard, withheld⟩

/--
What is sealed for a half of a character that stands alone is disclosed to the
replacement character, which is another key, and applied.
-/
theorem half_disclosed_to_replacement :
    ∃ outbound reached,
      prepare ⟨.standard, Cipher.sealing.onKeys, some ⟨[0xD800]⟩⟩ (.setAdd "k" "e") =
        .ok outbound ∧
      (⟨[0xFFFD]⟩ : Key) ≠ ⟨[0xD800]⟩ ∧
      (facing ⟨.standard, Cipher.sealing.onKeys, none⟩ ⟨[0xFFFD]⟩).ingest
          (outbound.toMessage "1" "\uFFFD") .empty =
        .ok (.applied (.setAdd "k" "e"), reached) ∧
      reached.sets.read? "k" = some ["e"] := by
  have half : Key.text ⟨[0xD800]⟩ = "\uFFFD" := by decide +kernel
  have replacement : "\uFFFD" = Key.text ⟨[0xFFFD]⟩ := by decide +kernel
  have owner : Profile.identity ⟨.standard, .sealing, .owner "\uFFFD"⟩ = .owner "\uFFFD" := rfl
  have channel : Profile.SharesChannel ⟨.standard, .sealing, .owner "\uFFFD"⟩
      ⟨.standard, .sealing, .unavailable⟩ := ⟨by decide +kernel, rfl⟩
  have travels : (Operation.setAdd "k" "e").MayTravel := trivial
  rcases Profile.ingest_of_sealed owner rfl rfl channel travels with ⟨outbound, made, taken⟩
  refine ⟨outbound, { Replica.empty with sets := GrowSet.add Replica.empty.sets "k" "e" }, ?made,
    by decide, ?taken, rfl⟩
  case made =>
    rw [prepare_onKeys, half]
    exact made
  case taken =>
    rw [ingest_onKeys .standard .sealing none .unavailable replacement]
    exact taken "1" .empty

end Keyholder

end ConvergentStore
