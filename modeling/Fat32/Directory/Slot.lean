import Fat32.Bytes
import Fat32.Directory.Attributes
import Fat32.Directory.ShortName

/-!
# Directory slots

A directory is a sequence of slots of 32 bytes. The first byte of a slot and its attributes say
what it holds: the end of the directory, a deleted entry, a fragment of a long name, or an entry
under its short name.
-/

namespace Fat32

abbrev RawSlot := Vector UInt8 32

namespace Bytes

def takeSlots : (count : Nat) → (bytes : Bytes) → List RawSlot
  | 0, _ => []
  | count + 1, bytes => bytes.fieldAt 0 32 :: takeSlots count (bytes.drop 32)

/-- The complete slots of `bytes`; an incomplete one at the end does not count. -/
def slots (bytes : Bytes) : List RawSlot := bytes.takeSlots (bytes.length / 32)

end Bytes

abbrev Units := Vector UInt16 13

structure Fragment where
  order : UInt8
  checksum : UInt8
  units : Units
  deriving DecidableEq, Repr

/-- An entry as its own slot gives it, before a long name is found for it. -/
structure ShortEntry where
  name : ShortName
  attributes : Attributes
  firstCluster : UInt32
  size : UInt32
  deriving DecidableEq, Repr

inductive Slot
  | endMark
  | deleted
  | fragment (f : Fragment)
  | short (e : ShortEntry)
  deriving DecidableEq, Repr

namespace Fragment

/-- The flag of the fragment that ends a long name, which is stored first. -/
def lastFlag : UInt8 := 0x40

def isLast (f : Fragment) : Bool := f.order &&& lastFlag != 0

def sequence (f : Fragment) : Nat := (f.order &&& 0x1F).toNat

/-- Where the code unit `i` of a fragment is stored: three runs, of five, six and two. -/
def unitOffset (i : Nat) : Nat :=
  if i < 5 then 1 + 2 * i else if i < 11 then 14 + 2 * (i - 5) else 28 + 2 * (i - 11)

def ofBytes (bytes : Bytes) : Fragment where
  order := bytes.byteAt 0
  checksum := bytes.byteAt 13
  units := .ofFn fun i => bytes.u16At (unitOffset i)

end Fragment

namespace ShortEntry

/-- The number of the first cluster is stored in two halves. -/
def ofBytes (bytes : Bytes) : ShortEntry where
  name := bytes.fieldAt 0 11
  attributes := ⟨bytes.byteAt 11⟩
  firstCluster := .ofNat (bytes.valueAt 20 2 * 65536 + bytes.valueAt 26 2)
  size := bytes.u32At 28

end ShortEntry

namespace Slot

def endByte : UInt8 := 0x00

def ofRaw (raw : RawSlot) : Slot :=
  let bytes : Bytes := raw.toList
  if raw[0] = endByte then .endMark
  else if raw[0] = ShortName.deletedMark then .deleted
  else if (Attributes.mk raw[11]).isLongName then .fragment (.ofBytes bytes)
  else .short (.ofBytes bytes)

end Slot

end Fat32
