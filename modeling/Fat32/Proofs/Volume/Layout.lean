import Fat32.Proofs.Performing
import Fat32.Proofs.Specimen
import Fat32.Proofs.Volume.Geometry

/-!
# Layout

What the words of the geometry stand for. They are computed in 32 bits, but for every accepted
boot record they are the numbers that the same formulas have without bounds: the differences are
those of integers, and nothing wraps around or is divided by zero.
-/

namespace Fat32

namespace Volume

/-- The sectors of one data cluster, and the place of its entry, in exact numbers. -/
structure Placed (volume : Volume) (cluster : UInt32) : Prop where
  clusterSector_eq : ((volume.clusterSector cluster).toNat : Int) =
    volume.dataStart.toNat + (cluster.toNat - 2) * volume.sectorsPerCluster.toNat
  entrySector_eq : (volume.entrySector cluster).toNat =
    volume.tableStart.toNat + 4 * cluster.toNat / volume.bytesPerSector.toNat
  entryOffset_eq : volume.entryOffset cluster =
    4 * cluster.toNat % volume.bytesPerSector.toNat
  /-- No entry lies across two sectors. -/
  entryOffset_add_le : volume.entryOffset cluster + 4 ≤ volume.bytesPerSector.toNat
  tableStart_le : volume.tableStart.toNat ≤ (volume.entrySector cluster).toNat
  lt_tableEnd : (volume.entrySector cluster).toNat <
    volume.tableStart.toNat + volume.sectorsPerTable.toNat
  dataStart_le : volume.dataStart.toNat ≤ (volume.clusterSector cluster).toNat
  le_totalSectors : (volume.clusterSector cluster).toNat + volume.sectorsPerCluster.toNat ≤
    volume.totalSectors.toNat

/-- The regions of a volume in exact numbers, one after the other and without overlap. -/
structure LaidOut (volume : Volume) : Prop where
  bytesPerSector_pos : 0 < volume.bytesPerSector.toNat
  sectorsPerCluster_pos : 0 < volume.sectorsPerCluster.toNat
  tableStart_eq : volume.tableStart.toNat =
    volume.reservedSectors.toNat + volume.activeTable.toNat * volume.sectorsPerTable.toNat
  dataStart_eq : volume.dataStart.toNat =
    volume.reservedSectors.toNat + volume.tableCount.toNat * volume.sectorsPerTable.toNat
  tableEnd_le : volume.tableStart.toNat + volume.sectorsPerTable.toNat ≤ volume.dataStart.toNat
  dataStart_lt : volume.dataStart.toNat < volume.totalSectors.toNat
  clusterCount_eq : (volume.clusterCount.toNat : Int) =
    min ((volume.totalSectors.toNat - volume.dataStart.toNat : Int) /
        volume.sectorsPerCluster.toNat)
      ((volume.sectorsPerTable.toNat * volume.bytesPerSector.toNat / 4 : Int) - 2)
  maxCluster_eq : volume.maxCluster.toNat = volume.clusterCount.toNat + 1
  placed : ∀ cluster, volume.isDataCluster cluster → volume.Placed cluster
  disjoint : ∀ cluster other, volume.isDataCluster cluster → volume.isDataCluster other →
    cluster ≠ other →
      (volume.clusterSector cluster).toNat + volume.sectorsPerCluster.toNat ≤
          (volume.clusterSector other).toNat ∨
        (volume.clusterSector other).toNat + volume.sectorsPerCluster.toNat ≤
          (volume.clusterSector cluster).toNat

namespace Accepted

variable {volume : Volume} (h : volume.Accepted) {cluster other : UInt32}

include h

theorem placed (hdata : volume.isDataCluster cluster) : volume.Placed cluster := by
  have hlow := (h.isDataCluster_iff.mp hdata).1
  obtain ⟨hstart, hend⟩ := h.clusterSector_spec hdata
  obtain ⟨htable, htableEnd⟩ := h.entrySector_spec hdata
  refine ⟨?_, ?_, ?_, h.entryOffset_add_le cluster, htable, htableEnd,
    hstart ▸ Nat.le_add_right _ _, hend⟩
  · rw [hstart]
    push_cast [hlow]
    rfl
  · rw [h.toNat_entrySector hdata, Nat.mul_comm 4]
  · rw [Nat.mul_comm 4]
    rfl

theorem two_le_tableEntries : 2 ≤ volume.tableEntries := by
  have hbytes := Nat.mul_le_mul h.sectorsPerTable h.le_bytesPerSector
  rw [tableEntries]
  omega

theorem laidOut : volume.LaidOut where
  bytesPerSector_pos := Nat.lt_of_lt_of_le (by decide) h.le_bytesPerSector
  sectorsPerCluster_pos := h.sectorsPerCluster_pos
  tableStart_eq := h.toNat_tableStart
  dataStart_eq := h.toNat_dataStart
  tableEnd_le := h.tableStart_add_le
  dataStart_lt := h.dataStart_lt
  clusterCount_eq := by
    have hentries := h.two_le_tableEntries
    have hdata := Int.ofNat_sub (Nat.le_of_lt h.dataStart_lt)
    rw [tableEntries] at hentries
    rw [h.toNat_clusterCount, tableEntries, ← hdata, ← Int.natCast_ediv]
    omega
  maxCluster_eq := h.toNat_maxCluster
  placed _ := h.placed
  disjoint _ _ := h.clusterSector_disjoint

end Accepted

/-- For every accepted boot record the words of the geometry are exact, and its regions and
clusters lie where they should. -/
theorem laidOut_of_parse {bytes : Bytes} {volume : Volume} (h : parse bytes = .ok volume) :
    volume.LaidOut :=
  (accepted_of_parse h).laidOut

end Volume

namespace Specimen

def crowdedRecord : Bytes :=
  recordWith [(14, [0xFF, 0xFF, 16]),
    (32, [0xFF, 0xFF, 0xFF, 0xFF, 0xFF, 0xEF, 0xFF, 0x0F, 0x8F, 0])]

def crowded : Volume :=
  { volume with
    reservedSectors := 0xFFFF
    tableCount := 16
    sectorsPerTable := 0x0FFFEFFF
    totalSectors := 0xFFFFFFFF
    activeTable := 15 }

/-- The last cluster lies in the last sector that the volume can have. -/
theorem laidOut_of_parse_crowded :
    Volume.parse crowdedRecord = .ok crowded ∧ crowded.LaidOut ∧
      crowded.tableStart.toNat = 0xF0000FF0 ∧ crowded.dataStart.toNat = 0xFFFFFFEF ∧
      crowded.isDataCluster 17 ∧ ((crowded.clusterSector 17).toNat : Int) = 0xFFFFFFFE := by
  have hparse : Volume.parse crowdedRecord = .ok crowded := eq_ok_of_toOption (by decide +kernel)
  have hlaidOut := Volume.laidOut_of_parse hparse
  have hlast : crowded.isDataCluster 17 := by decide +kernel
  have hsector := (hlaidOut.placed 17 hlast).clusterSector_eq
  rw [hlaidOut.dataStart_eq] at hsector
  exact ⟨hparse, hlaidOut, hlaidOut.tableStart_eq, hlaidOut.dataStart_eq, hlast, hsector⟩

end Specimen

end Fat32
