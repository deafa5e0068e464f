import Fat32.Cluster.Link
import Fat32.Volume.Sectors

/-!
# The file allocation table

Entries are read from the active copy of the table. The sector read last is kept, so following a
chain reads a sector again only after another one.
-/

namespace Fat32

structure Table where
  kept : Option (UInt32 × Bytes)
  deriving DecidableEq, Repr

namespace Table

def empty : Table := ⟨none⟩

def kept? (table : Table) (number : UInt32) : Option Bytes :=
  table.kept.bind fun (kept, bytes) => if kept = number then some bytes else none

/-- The bytes of a sector of the table. A failed read leaves the kept sector in place. -/
def sector (table : Table) (volume : Volume) (number : UInt32) :
    StateM Session (Except Error Bytes × Table) := do
  match table.kept? number with
  | some bytes => return (.ok bytes, table)
  | none =>
      match ← (volume.readSectors number 1 volume.bytesPerSector.toNat).run with
      | .ok bytes => return (.ok bytes, ⟨some (number, bytes)⟩)
      | .error error => return (.error error, table)

def link (table : Table) (volume : Volume) (cluster : UInt32) :
    StateM Session (Except Error Link × Table) := do
  if volume.isDataCluster cluster then
    let (bytes, table) ← table.sector volume (volume.entrySector cluster)
    return (bytes.map fun bytes => .ofRaw (bytes.u32At (volume.entryOffset cluster)), table)
  else return (.error (.invalidCluster cluster), table)

end Table

end Fat32
