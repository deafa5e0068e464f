import Fat32.Directory.Slot
import Fat32.Text.Utf16

/-!
# Long names

A long name precedes the slot of its entry in fragments, the last one first. The first fragment
stored fixes their number and checksum; each of the others then fills the place that its
sequence number gives it. The text is that of the code units up to the first zero, without the
filler 0xFFFF.
-/

namespace Fat32

/-- The fragments of a long name that have been read, by their place in the name. -/
structure PartialName where
  checksum : UInt8
  fragments : List (Option Units)
  deriving DecidableEq, Repr

namespace PartialName

/-- A name has at most 255 code units, 13 in each fragment. -/
def maxFragments : Nat := 20

/-- The name that a fragment with the last flag opens, none if its sequence number is not one
of a fragment. -/
def open? (f : Fragment) : Option PartialName :=
  if f.sequence = 0 ∨ f.sequence > maxFragments then none
  else some ⟨f.checksum, (List.replicate f.sequence none).set (f.sequence - 1) (some f.units)⟩

/-- Puts a further fragment in its place, none if it belongs to another name or its place is
taken or does not exist. -/
def place? (name : PartialName) (f : Fragment) : Option PartialName :=
  if name.checksum = f.checksum ∧ f.sequence ≠ 0
      ∧ name.fragments[f.sequence - 1]? = some none then
    some { name with fragments := name.fragments.set (f.sequence - 1) (some f.units) }
  else none

def isComplete (name : PartialName) : Bool := name.fragments.all Option.isSome

def units (name : PartialName) : List UInt16 :=
  name.fragments.flatMap fun fragment => fragment.elim [] Vector.toList

def textUnits (name : PartialName) : List UInt16 :=
  (name.units.takeWhile (· != 0x0000)).filter (· != 0xFFFF)

def text (name : PartialName) : String :=
  String.ofList (Text.Utf16.decodeLossy name.textUnits)

end PartialName

end Fat32
