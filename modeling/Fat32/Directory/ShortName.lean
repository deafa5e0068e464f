import Fat32.Text.Blank

/-!
# Short names

A short name is eleven bytes: a base of eight and an extension of three, each filled up with
spaces. It is shown in upper case with a dot before a non-empty extension; a byte above 0x7F
stands for the character of the same number. A volume label keeps its eleven bytes together.
-/

namespace Fat32

abbrev ShortName := Vector UInt8 11

namespace ShortName

def deletedMark : UInt8 := 0xE5

/-- What stands for a first byte equal to the mark of a deleted entry. -/
def markEscape : UInt8 := 0x05

def space : UInt8 := 0x20

def unescaped (name : ShortName) : List UInt8 :=
  (if name[0] = markEscape then name.set 0 deletedMark else name).toList

def fieldText (field : List UInt8) : List Char :=
  (Text.dropTrailing (· == space) field).map fun b => (Char.ofNat b.toNat).toUpper

def display (name : ShortName) : String :=
  let base := fieldText (name.unescaped.take 8)
  match fieldText (name.unescaped.drop 8) with
  | [] => String.ofList base
  | extension => String.ofList (base ++ '.' :: extension)

def displayLabel (name : ShortName) : String := String.ofList (fieldText name.unescaped)

/-! ## Checksum -/

def rotateRight (sum : UInt8) : UInt8 := (sum >>> 1) ||| (sum <<< 7)

def checksum (name : ShortName) : UInt8 :=
  name.toList.foldl (fun sum b => rotateRight sum + b) 0

end ShortName

end Fat32
