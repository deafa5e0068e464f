import Fat32.Directory.Slot
import Fat32.Text.Ascii
import Fat32.Text.Quoted

/-!
# Directory entries
-/

namespace Fat32

/-- A file, directory or volume label. Its name is the long one where there is one that belongs
to it, else the short one. -/
structure Entry where
  name : String
  shortName : String
  attributes : Attributes
  size : UInt32
  firstCluster : UInt32
  deriving DecidableEq, Repr

namespace Entry

def isDirectory (entry : Entry) : Bool := entry.attributes.isDirectory

def isVolumeLabel (entry : Entry) : Bool := entry.attributes.isVolumeLabel

def isDot (entry : Entry) : Bool := entry.shortName == "." || entry.shortName == ".."

def answersTo (entry : Entry) (name : String) : Bool :=
  Text.sameIgnoringCase entry.name name || Text.sameIgnoringCase entry.shortName name

def isHidden (entry : Entry) : Bool := entry.isDot || entry.isVolumeLabel

def text (entry : Entry) : String :=
  "DirectoryEntry \x7b name: " ++ Text.Quoted.encode entry.name
    ++ ", attributes: " ++ entry.attributes.text
    ++ s!", cluster: {entry.firstCluster}, size: {entry.size} \x7d"

end Entry

def ShortEntry.displayName (short : ShortEntry) : String :=
  if short.attributes.isVolumeLabel then short.name.displayLabel else short.name.display

def ShortEntry.named (short : ShortEntry) (name : String) : Entry where
  name := name
  shortName := short.displayName
  attributes := short.attributes
  size := short.size
  firstCluster := short.firstCluster

end Fat32
