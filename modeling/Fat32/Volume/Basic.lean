import Fat32.Text.Blank
import Fat32.Text.Utf8
import Fat32.Volume.BootRecord

/-!
# Volumes

The geometry of a FAT32 volume: where its table, its data area and each cluster lie. Sector and
cluster numbers are 32-bit words; for a volume that comes from a valid boot record none of the
sums and products here leaves that range.
-/

namespace Fat32

structure Volume where
  bytesPerSector : UInt16
  sectorsPerCluster : UInt8
  reservedSectors : UInt16
  tableCount : UInt8
  sectorsPerTable : UInt32
  rootCluster : UInt32
  totalSectors : UInt32
  activeTable : UInt8
  hintSector : UInt16
  volumeId : UInt32
  oemField : Vector UInt8 8
  labelField : Vector UInt8 11
  deriving DecidableEq, Repr

namespace Volume

def extendedSignature : UInt8 := 0x29

def ofRecord (record : BootRecord) : Volume where
  bytesPerSector := record.bytesPerSector
  sectorsPerCluster := record.sectorsPerCluster
  reservedSectors := record.reservedSectors
  tableCount := record.tableCount
  sectorsPerTable := record.tableSectors
  rootCluster := record.rootCluster
  totalSectors := record.totalSectors
  activeTable := record.activeTable
  hintSector := record.hintSector
  volumeId := record.volumeId
  oemField := record.oemName
  labelField :=
    if record.extendedSignature = extendedSignature then record.label else .replicate 11 0x20

def parse (bytes : Bytes) : Except BootFlaw Volume :=
  match BootRecord.ofBytes? bytes with
  | none => .error .tooShort
  | some record =>
      match record.flaw? with
      | some flaw => .error flaw
      | none => .ok (ofRecord record)

/-! ## Geometry -/

def clusterSize (volume : Volume) : Nat :=
  volume.bytesPerSector.toNat * volume.sectorsPerCluster.toNat

def tableStart (volume : Volume) : UInt32 :=
  volume.reservedSectors.toUInt32 + volume.activeTable.toUInt32 * volume.sectorsPerTable

def dataStart (volume : Volume) : UInt32 :=
  volume.reservedSectors.toUInt32 + volume.tableCount.toUInt32 * volume.sectorsPerTable

def tableEntries (volume : Volume) : Nat :=
  volume.sectorsPerTable.toNat * volume.bytesPerSector.toNat / 4

/-- The number of data clusters: as many as the data area holds, and no more than the table has
entries for, of which the first two belong to no cluster. -/
def clusterCount (volume : Volume) : UInt32 :=
  let inData := (volume.totalSectors - volume.dataStart) / volume.sectorsPerCluster.toUInt32
  min inData (.ofNat (min (volume.tableEntries - 2) (UInt32.size - 1)))

def maxCluster (volume : Volume) : UInt32 := volume.clusterCount + 1

def isDataCluster (volume : Volume) (cluster : UInt32) : Bool :=
  2 ≤ cluster && cluster ≤ volume.maxCluster

def clusterSector (volume : Volume) (cluster : UInt32) : UInt32 :=
  volume.dataStart + (cluster - 2) * volume.sectorsPerCluster.toUInt32

def entrySector (volume : Volume) (cluster : UInt32) : UInt32 :=
  volume.tableStart + .ofNat (cluster.toNat * 4 / volume.bytesPerSector.toNat)

def entryOffset (volume : Volume) (cluster : UInt32) : Nat :=
  cluster.toNat * 4 % volume.bytesPerSector.toNat

/-! ## Names -/

def fieldText (field : Bytes) : String :=
  String.ofList (Text.dropTrailing Text.isBlank (Text.Utf8.decodeLossy field))

def oemName (volume : Volume) : String := fieldText volume.oemField.toList

def unnamed : String := "NO NAME"

def label (volume : Volume) : String :=
  let text := fieldText volume.labelField.toList
  if text = unnamed then "" else text

end Volume

end Fat32
