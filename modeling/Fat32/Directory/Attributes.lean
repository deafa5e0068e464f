import Fat32.Text.Hex

/-!
# Attributes of a directory entry
-/

namespace Fat32

/-- The attribute byte of a directory entry. Its two high bits are reserved and are kept. -/
structure Attributes where
  bits : UInt8
  deriving DecidableEq, Repr

namespace Attributes

def labelBit : UInt8 := 0x08

def directoryBit : UInt8 := 0x10

/-- The pattern in the low six bits that marks a fragment of a long name. -/
def longNamePattern : UInt8 := 0x0F

def directory : Attributes := ⟨directoryBit⟩

def isDirectory (attributes : Attributes) : Bool := attributes.bits &&& directoryBit != 0

def isLongName (attributes : Attributes) : Bool := attributes.bits &&& 0x3F == longNamePattern

def isVolumeLabel (attributes : Attributes) : Bool :=
  !attributes.isLongName && attributes.bits &&& labelBit != 0

def text (attributes : Attributes) : String :=
  "Attributes(0x" ++ Text.hex 2 attributes.bits.toNat ++ ")"

end Attributes

end Fat32
