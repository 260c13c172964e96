import ConvergentStore.Text.CodePoint

/-!
# UTF-8

Writing text as UTF-8 and reading any sequence of bytes as text. Reading never
fails: a byte order mark at the start is dropped, and every longest run of
bytes that could begin a character but is not continued becomes one
replacement character.
-/

namespace ConvergentStore.Text.Utf8

/-! ## Writing -/

/-- The bytes of one character. -/
def encodeChar (c : Char) : List UInt8 :=
  let code := c.toNat
  let tail (n : Nat) : UInt8 := .ofNat (0x80 + n % 64)
  if code < 0x80 then [.ofNat code]
  else if code < 0x800 then [.ofNat (0xC0 + code / 64), tail code]
  else if code < 0x10000 then
    [.ofNat (0xE0 + code / 4096), tail (code / 64), tail code]
  else
    [.ofNat (0xF0 + code / 262144), tail (code / 4096), tail (code / 64), tail code]

/-- The bytes of a text. -/
def encode (text : List Char) : List UInt8 :=
  text.flatMap encodeChar

/-! ## Reading -/

/-- A character of which the first bytes have been read. -/
structure Begun where
  /-- The bits read so far. -/
  bits : Nat
  /-- How many bytes are still to come, less one. -/
  further : Nat
  /-- The least byte that may come next. -/
  low : Nat
  /-- The greatest byte that may come next. -/
  high : Nat
  deriving DecidableEq

/-- What the first byte of a character yields: characters, or a character begun. -/
def start (byte : Nat) : List Char × Option Begun :=
  if byte < 0x80 then ([characterOf byte], none)
  else if 0xC2 ≤ byte && byte ≤ 0xDF then ([], some ⟨byte - 0xC0, 0, 0x80, 0xBF⟩)
  else if byte = 0xE0 then ([], some ⟨0, 1, 0xA0, 0xBF⟩)
  else if byte = 0xED then ([], some ⟨0xD, 1, 0x80, 0x9F⟩)
  else if 0xE1 ≤ byte && byte ≤ 0xEF then ([], some ⟨byte - 0xE0, 1, 0x80, 0xBF⟩)
  else if byte = 0xF0 then ([], some ⟨0, 2, 0x90, 0xBF⟩)
  else if 0xF1 ≤ byte && byte ≤ 0xF3 then ([], some ⟨byte - 0xF0, 2, 0x80, 0xBF⟩)
  else if byte = 0xF4 then ([], some ⟨4, 2, 0x80, 0x8F⟩)
  else ([replacement], none)

/-- A begun character continued by a byte in its range. -/
def Begun.continued (begun : Begun) (byte : Nat) : List Char × Option Begun :=
  let bits := 64 * begun.bits + (byte - 0x80)
  match begun.further with
  | 0 => ([characterOf bits], none)
  | further + 1 => ([], some ⟨bits, further, 0x80, 0xBF⟩)

/-- What one byte yields after what was begun before it. -/
def next (begun : Option Begun) (byte : Nat) : List Char × Option Begun :=
  match begun with
  | none => start byte
  | some begun =>
      if begun.low ≤ byte && byte ≤ begun.high then begun.continued byte
      else
        let (written, left) := start byte
        (replacement :: written, left)

/-- The text of a sequence of bytes after what was begun before it. -/
def decodeFrom (begun : Option Begun) : List UInt8 → List Char
  | [] => if begun.isSome then [replacement] else []
  | byte :: rest =>
      let (written, left) := next begun byte.toNat
      written ++ decodeFrom left rest

/-- The bytes without a byte order mark at the start. -/
def dropMark : List UInt8 → List UInt8
  | 0xEF :: 0xBB :: 0xBF :: rest => rest
  | bytes => bytes

/-- The text of a sequence of bytes. -/
def decode (bytes : List UInt8) : List Char :=
  decodeFrom none (dropMark bytes)

end ConvergentStore.Text.Utf8
