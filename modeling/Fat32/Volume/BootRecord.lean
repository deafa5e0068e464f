import Fat32.Bytes
import Fat32.Error

/-!
# Boot records

The first 512 bytes of a FAT32 volume. Reading takes the fields from their offsets and judges
nothing; `flaw?` then names the first thing that keeps the record from describing a volume.
-/

namespace Fat32

def isPowerOfTwo (n : Nat) : Bool := 1 <<< n.log2 == n

/-- The fields of a boot record, in the order in which they are stored. -/
structure BootRecord where
  jump : Vector UInt8 3
  oemName : Vector UInt8 8
  bytesPerSector : UInt16
  sectorsPerCluster : UInt8
  reservedSectors : UInt16
  tableCount : UInt8
  rootEntries : UInt16
  totalSectors16 : UInt16
  media : UInt8
  tableSectors16 : UInt16
  hiddenSectors : UInt32
  totalSectors32 : UInt32
  tableSectors32 : UInt32
  flags : UInt16
  version : UInt16
  rootCluster : UInt32
  hintSector : UInt16
  backupSector : UInt16
  driveNumber : UInt8
  extendedSignature : UInt8
  volumeId : UInt32
  label : Vector UInt8 11
  formatName : Vector UInt8 8
  signature : UInt16
  deriving DecidableEq, Repr

namespace BootRecord

def length : Nat := 512

def ofBytes? (bytes : Bytes) : Option BootRecord :=
  if bytes.length < length then none
  else some {
    jump := bytes.fieldAt 0 3
    oemName := bytes.fieldAt 3 8
    bytesPerSector := bytes.u16At 11
    sectorsPerCluster := bytes.byteAt 13
    reservedSectors := bytes.u16At 14
    tableCount := bytes.byteAt 16
    rootEntries := bytes.u16At 17
    totalSectors16 := bytes.u16At 19
    media := bytes.byteAt 21
    tableSectors16 := bytes.u16At 22
    hiddenSectors := bytes.u32At 28
    totalSectors32 := bytes.u32At 32
    tableSectors32 := bytes.u32At 36
    flags := bytes.u16At 40
    version := bytes.u16At 42
    rootCluster := bytes.u32At 44
    hintSector := bytes.u16At 48
    backupSector := bytes.u16At 50
    driveNumber := bytes.byteAt 64
    extendedSignature := bytes.byteAt 66
    volumeId := bytes.u32At 67
    label := bytes.fieldAt 71 11
    formatName := bytes.fieldAt 82 8
    signature := bytes.u16At 510 }

/-! ## Derived quantities -/

def clusterSize (record : BootRecord) : Nat :=
  record.bytesPerSector.toNat * record.sectorsPerCluster.toNat

/-- Sectors in one copy of the table: the 16-bit field where it is used, else the 32-bit one. -/
def tableSectors (record : BootRecord) : UInt32 :=
  if record.tableSectors16 ≠ 0 then record.tableSectors16.toUInt32 else record.tableSectors32

/-- Sectors in the volume: the 16-bit field where it is used, else the 32-bit one. -/
def totalSectors (record : BootRecord) : UInt32 :=
  if record.totalSectors16 ≠ 0 then record.totalSectors16.toUInt32 else record.totalSectors32

/-- Where the data area begins, as a number of any size: an unchecked record may place it past
every sector. -/
def dataStart (record : BootRecord) : Nat :=
  record.reservedSectors.toNat + record.tableCount.toNat * record.tableSectors.toNat

/-- The copy of the table that is read. With bit 7 of the flags only one copy is kept up to date,
which the low four bits select; without it all are, and the first is read. -/
def activeTable (record : BootRecord) : UInt8 :=
  if record.flags &&& 0x80 ≠ 0 then (record.flags &&& 0x0F).toUInt8 else 0

/-! ## Validity -/

def jumpOpcodes : List UInt8 := [0xEB, 0xE9, 0xE8]

def sectorSizes : List UInt16 := [512, 1024, 2048, 4096]

def bootSignature : UInt16 := 0xAA55

def flaw? (record : BootRecord) : Option BootFlaw :=
  let total := record.totalSectors.toNat
  let dataStart := record.dataStart
  if record.jump[0] ∉ jumpOpcodes then some .jump
  else if record.signature ≠ bootSignature then some .signature
  else if record.bytesPerSector ∉ sectorSizes then some .sectorBytes
  else if !isPowerOfTwo record.sectorsPerCluster.toNat then some .clusterSectors
  else if record.tableCount = 0 then some .noTable
  else if record.tableSectors16 ≠ 0 ∨ record.tableSectors32 = 0 then some .notFat32
  else if record.activeTable ≥ record.tableCount then some .activeTable
  else if total ≤ dataStart then some .noData
  else if record.rootCluster < 2 then some .rootTooLow
  else if record.rootCluster.toNat >
      (total - dataStart) / record.sectorsPerCluster.toNat + 1 then some .rootTooHigh
  else none

end BootRecord

end Fat32
