/-!
# Bytes and little-endian words

Sectors, clusters and file contents are lists of bytes. Words are stored with the least
significant byte first. Reading is total: a byte past the end counts as zero, so a reader that
has checked the length of its input needs no further bounds.
-/

namespace Fat32

abbrev Bytes := List UInt8

namespace Bytes

/-- The byte at `offset`, zero past the end. -/
def byteAt (bytes : Bytes) (offset : Nat) : UInt8 := bytes.getD offset 0

/-- The value of `width` bytes from `offset`, least significant byte first. -/
def valueAt (bytes : Bytes) (offset : Nat) : Nat → Nat
  | 0 => 0
  | width + 1 => (bytes.byteAt offset).toNat + 256 * bytes.valueAt (offset + 1) width

def u16At (bytes : Bytes) (offset : Nat) : UInt16 := .ofNat (bytes.valueAt offset 2)

def u32At (bytes : Bytes) (offset : Nat) : UInt32 := .ofNat (bytes.valueAt offset 4)

def fieldAt (bytes : Bytes) (offset n : Nat) : Vector UInt8 n :=
  .ofFn fun i => bytes.byteAt (offset + i)

end Bytes

end Fat32
