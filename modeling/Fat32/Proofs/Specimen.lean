import Fat32.Directory.Entry
import Fat32.Image
import Fat32.Tree.Basic
import Fat32.Volume.Basic

/-!
# A specimen

A small volume with the flaws that directories can have: its root holds two ways to one directory
and a way back to itself. The image ends in the middle of the last of its six clusters. Another
image holds all of the volume, and a tree without flaws.
-/

namespace Fat32

def Image.ofParts (size : Nat) (parts : List (Nat × Bytes)) : Image where
  size
  byte i :=
    let part? (part : Nat × Bytes) := if part.1 ≤ i then part.2[i - part.1]? else none
    (parts.findSome? part?).getD 0

namespace Specimen

def bootParts : List (Nat × Bytes) :=
  [(0, [0xEB, 0x58, 0x90]), (11, [0x00, 0x02, 1, 2, 0, 1]), (32, [9, 0, 0, 0, 1, 0, 0, 0]),
    (44, [2, 0, 0, 0, 1, 0]), (510, [0x55, 0xAA])]

def hintParts : List (Nat × Bytes) :=
  [(512, [0x52, 0x52, 0x61, 0x41]), (996, [0x72, 0x72, 0x41, 0x61, 3, 0, 0, 0, 6, 0, 0, 0]),
    (1020, [0, 0, 0x55, 0xAA])]

/-- Each cluster ends its chain, but for the fifth, which links to itself. -/
def tableParts : List (Nat × Bytes) :=
  let last : Bytes := [0xFF, 0xFF, 0xFF, 0x0F]
  [(1032, last ++ last ++ last ++ last ++ [6, 0, 0, 0] ++ last)]

def slot (name attributes cluster size : UInt8) : Bytes :=
  name :: (List.replicate 10 0x20 ++ attributes :: List.replicate 14 0 ++
    [cluster, 0, size, 0, 0, 0])

def directoryParts : List (Nat × Bytes) :=
  [(1536, slot 0x41 0x10 3 0 ++ slot 0x42 0x10 3 0 ++ slot 0x43 0x20 4 5 ++ slot 0x44 0x10 2 0),
    (2048, slot 0x45 0x20 7 1 ++ slot 0x46 0x10 5 0)]

def image : Image :=
  .ofParts (17 * 256) (bootParts ++ hintParts ++ tableParts ++ directoryParts)

def hintless : Image := .ofParts (17 * 256) (bootParts ++ tableParts ++ directoryParts)

def soundParts : List (Nat × Bytes) :=
  [(1536, slot 0x41 0x08 0 0 ++ slot 0x41 0x10 3 0 ++ slot 0x43 0x20 4 5),
    (2048, slot 0x2E 0x10 3 0 ++ slot 0x46 0x10 5 0 ++ slot 0x45 0x20 7 1)]

def sound : Image := .ofParts (18 * 256) (bootParts ++ hintParts ++ tableParts ++ soundParts)

/-- The entries of the root on the image without flaws, of which the first is the label. -/
def rootEntries : List Entry :=
  [⟨"A", "A", ⟨0x08⟩, 0, 0⟩, ⟨"A", "A", ⟨0x10⟩, 0, 3⟩, ⟨"C", "C", ⟨0x20⟩, 5, 4⟩]

def tree : Dir := ⟨"/", [⟨"C", 5, 4⟩], [⟨"A", [⟨"E", 1, 7⟩], [⟨"F", [], []⟩]⟩]⟩

def volume : Volume where
  bytesPerSector := 512
  sectorsPerCluster := 1
  reservedSectors := 2
  tableCount := 1
  sectorsPerTable := 1
  rootCluster := 2
  totalSectors := 9
  activeTable := 0
  hintSector := 1
  volumeId := 0
  oemField := .replicate 8 0
  labelField := .replicate 11 0x20

def recordWith (changes : List (Nat × Bytes)) : Bytes :=
  (Image.ofParts BootRecord.length (changes ++ bootParts)).slice 0 BootRecord.length

end Specimen

end Fat32
