import Fat32.Bytes

/-!
# Text in UTF-8

Decoding of bytes that need not be well formed. Each maximal piece that begins a character and
cannot be continued, and each byte that cannot begin one, is replaced by one U+FFFD.
-/

namespace Fat32.Text.Utf8

def replacement : Char := '\uFFFD'

/-- A character of which some bytes are read: its value so far, how many bytes are missing, and
the closed range in which the next one has to lie. -/
structure Unfinished where
  value : Nat
  missing : Nat
  low : UInt8
  high : UInt8
  deriving DecidableEq, Repr

inductive Lead
  | complete (c : Char)
  | opens (u : Unfinished)
  | invalid
  deriving DecidableEq, Repr

/-- The second byte of a character is restricted further after `E0`, `ED`, `F0` and `F4`, which
excludes overlong forms, surrogates and values above U+10FFFF. -/
def lead (b : UInt8) : Lead :=
  if b < 0x80 then .complete (.ofNat b.toNat)
  else if b < 0xC2 then .invalid
  else if b < 0xE0 then .opens ⟨b.toNat - 0xC0, 1, 0x80, 0xBF⟩
  else if b = 0xE0 then .opens ⟨0, 2, 0xA0, 0xBF⟩
  else if b = 0xED then .opens ⟨0xD, 2, 0x80, 0x9F⟩
  else if b < 0xF0 then .opens ⟨b.toNat - 0xE0, 2, 0x80, 0xBF⟩
  else if b = 0xF0 then .opens ⟨0, 3, 0x90, 0xBF⟩
  else if b < 0xF4 then .opens ⟨b.toNat - 0xF0, 3, 0x80, 0xBF⟩
  else if b = 0xF4 then .opens ⟨4, 3, 0x80, 0x8F⟩
  else .invalid

def decodeFrom : Option Unfinished → Bytes → List Char
  | none, [] => []
  | some _, [] => [replacement]
  | pending, b :: rest =>
      let restart :=
        match lead b with
        | .complete c => c :: decodeFrom none rest
        | .opens u => decodeFrom (some u) rest
        | .invalid => replacement :: decodeFrom none rest
      match pending with
      | none => restart
      | some u =>
          if u.low ≤ b && b ≤ u.high then
            let value := u.value * 64 + (b.toNat - 0x80)
            if u.missing = 1 then .ofNat value :: decodeFrom none rest
            else decodeFrom (some ⟨value, u.missing - 1, 0x80, 0xBF⟩) rest
          else replacement :: restart

def decodeLossy (bytes : Bytes) : List Char := decodeFrom none bytes

end Fat32.Text.Utf8
