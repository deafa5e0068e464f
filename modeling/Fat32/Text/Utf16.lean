/-!
# Text in UTF-16

Decoding of 16-bit code units. A leading surrogate followed by a trailing one stands for a
character outside the basic plane; every other surrogate is replaced by U+FFFD.
-/

namespace Fat32.Text.Utf16

def replacement : Char := '\uFFFD'

def isLeading (unit : UInt16) : Bool := 0xD800 ≤ unit && unit < 0xDC00

def isTrailing (unit : UInt16) : Bool := 0xDC00 ≤ unit && unit < 0xE000

def single (unit : UInt16) : Char := .ofNat unit.toNat

def paired (leading trailing : UInt16) : Char :=
  .ofNat (0x10000 + (leading.toNat - 0xD800) * 0x400 + (trailing.toNat - 0xDC00))

def decodeLossy : List UInt16 → List Char
  | [] => []
  | [unit] => [if isLeading unit || isTrailing unit then replacement else single unit]
  | unit :: next :: rest =>
      if isLeading unit then
        if isTrailing next then paired unit next :: decodeLossy rest
        else replacement :: decodeLossy (next :: rest)
      else if isTrailing unit then replacement :: decodeLossy (next :: rest)
      else single unit :: decodeLossy (next :: rest)

end Fat32.Text.Utf16
