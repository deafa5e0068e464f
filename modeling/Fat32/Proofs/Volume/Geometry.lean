import Fat32.Volume.Basic
import Mathlib.Algebra.Group.Nat.Defs

/-!
# Geometry

The regions of a volume whose boot record was accepted, in exact numbers. No sum or product of the
geometry leaves the range of a word: the active table lies before the data area, the entry of each
data cluster in one of its sectors, and each data cluster within the volume.
-/

namespace Fat32

theorem isPowerOfTwo_iff {n : Nat} : isPowerOfTwo n ↔ ∃ k, n = 2 ^ k := by
  rw [isPowerOfTwo, beq_iff_eq, Nat.one_shiftLeft]
  constructor
  · exact fun h => ⟨n.log2, h.symm⟩
  · rintro ⟨k, rfl⟩
    rw [Nat.log2_two_pow]

theorem pos_of_isPowerOfTwo {n : Nat} (h : isPowerOfTwo n) : 0 < n := by
  obtain ⟨k, rfl⟩ := isPowerOfTwo_iff.mp h
  exact Nat.two_pow_pos k

/-- What the checks of a boot record say about the volume that it describes. -/
structure Volume.Accepted (volume : Volume) : Prop where
  bytesPerSector : volume.bytesPerSector ∈ BootRecord.sectorSizes
  sectorsPerCluster : isPowerOfTwo volume.sectorsPerCluster.toNat
  sectorsPerTable : 0 < volume.sectorsPerTable.toNat
  activeTable : volume.activeTable.toNat < volume.tableCount.toNat
  dataArea : volume.reservedSectors.toNat +
    volume.tableCount.toNat * volume.sectorsPerTable.toNat < volume.totalSectors.toNat

/-! ## Checks -/

theorem ite_some_eq_none {α : Type} {c : Prop} [Decidable c] {a : α} {rest : Option α} :
    (if c then some a else rest) = none ↔ ¬ c ∧ rest = none := by
  by_cases hc : c <;> simp [hc]

private theorem toNat_min (a b : UInt32) : (min a b).toNat = min a.toNat b.toNat := by
  change (if a ≤ b then a else b).toNat = _
  split
  case isTrue h => rw [Nat.min_eq_left (UInt32.le_iff_toNat_le.mp h)]
  case isFalse h =>
    have hlt := UInt32.lt_iff_toNat_lt.mp (UInt32.not_le.mp h)
    rw [Nat.min_eq_right (Nat.le_of_lt hlt)]

namespace Volume

theorem accepted_ofRecord {record : BootRecord} (h : record.flaw? = none) :
    (ofRecord record).Accepted := by
  simp only [BootRecord.flaw?, ite_some_eq_none] at h
  obtain ⟨-, -, hbytes, hcluster, -, hformat, hactive, hdata, -, -, -⟩ := h
  have hsectors : record.tableSectors = record.tableSectors32 := if_neg fun h => hformat (.inl h)
  refine ⟨Decidable.not_not.mp hbytes, by simpa [ofRecord] using hcluster, ?_, ?_,
    Nat.not_le.mp hdata⟩
  · have hpos : record.tableSectors32 ≠ 0 := fun h => hformat (.inr h)
    rw [ofRecord, hsectors, Nat.pos_iff_ne_zero]
    exact fun hzero => hpos (UInt32.toNat_inj.mp hzero)
  · exact UInt8.lt_iff_toNat_lt.mp (UInt8.not_le.mp hactive)

theorem exists_record_of_parse {bytes : Bytes} {volume : Volume} (h : parse bytes = .ok volume) :
    ∃ record : BootRecord, record.flaw? = none ∧ ofRecord record = volume := by
  rw [parse] at h
  split at h
  · contradiction
  split at h
  · contradiction
  · next hflaw => exact ⟨_, hflaw, Except.ok.inj h⟩

theorem accepted_of_parse {bytes : Bytes} {volume : Volume} (h : parse bytes = .ok volume) :
    volume.Accepted := by
  obtain ⟨record, hflaw, rfl⟩ := exists_record_of_parse h
  exact accepted_ofRecord hflaw

theorem isDataCluster_iff_le (volume : Volume) {cluster : UInt32} :
    volume.isDataCluster cluster ↔ 2 ≤ cluster ∧ cluster ≤ volume.maxCluster := by
  rw [isDataCluster, Bool.and_eq_true, decide_eq_true_eq, decide_eq_true_eq]

namespace Accepted

variable {volume : Volume} (h : volume.Accepted)

include h

/-! ## Sectors -/

theorem exists_bytesPerSector : ∃ k, volume.bytesPerSector.toNat = 2 ^ k ∧ 9 ≤ k := by
  have hmem := h.bytesPerSector
  simp only [BootRecord.sectorSizes, List.mem_cons, List.not_mem_nil, or_false] at hmem
  rcases hmem with h | h | h | h
  · exact ⟨9, by rw [h]; rfl, by decide⟩
  · exact ⟨10, by rw [h]; rfl, by decide⟩
  · exact ⟨11, by rw [h]; rfl, by decide⟩
  · exact ⟨12, by rw [h]; rfl, by decide⟩

theorem pow_dvd_bytesPerSector {m : Nat} (hm : m ≤ 9) : 2 ^ m ∣ volume.bytesPerSector.toNat := by
  obtain ⟨k, hk, hle⟩ := h.exists_bytesPerSector
  rw [hk]
  exact Nat.pow_dvd_pow 2 (Nat.le_trans hm hle)

theorem le_bytesPerSector : 512 ≤ volume.bytesPerSector.toNat := by
  obtain ⟨k, hk, hle⟩ := h.exists_bytesPerSector
  rw [hk]
  exact Nat.pow_le_pow_right (Nat.succ_pos 1) hle

theorem dvd_bytesPerSector {size : Nat} (hpower : isPowerOfTwo size)
    (hle : size ≤ volume.bytesPerSector.toNat) : size ∣ volume.bytesPerSector.toNat := by
  obtain ⟨m, rfl⟩ := isPowerOfTwo_iff.mp hpower
  obtain ⟨k, hk, -⟩ := h.exists_bytesPerSector
  rw [hk] at hle ⊢
  exact Nat.pow_dvd_pow 2 ((Nat.pow_le_pow_iff_right (by decide)).mp hle)

theorem sectorsPerCluster_pos : 0 < volume.sectorsPerCluster.toNat :=
  pos_of_isPowerOfTwo h.sectorsPerCluster

theorem clusterSize_pos : 0 < volume.clusterSize :=
  Nat.mul_pos (Nat.lt_of_lt_of_le (by decide) h.le_bytesPerSector) h.sectorsPerCluster_pos

/-! ## Regions -/

theorem toNat_dataStart : volume.dataStart.toNat =
    volume.reservedSectors.toNat + volume.tableCount.toNat * volume.sectorsPerTable.toNat := by
  have htotal := volume.totalSectors.toNat_lt
  have hdata := h.dataArea
  rw [dataStart, UInt32.toNat_add, UInt32.toNat_mul, UInt16.toNat_toUInt32, UInt8.toNat_toUInt32,
    Nat.add_mod_mod, Nat.mod_eq_of_lt (Nat.lt_trans hdata htotal)]

theorem activeTable_lt_dataArea : volume.reservedSectors.toNat +
    volume.activeTable.toNat * volume.sectorsPerTable.toNat + volume.sectorsPerTable.toNat ≤
    volume.reservedSectors.toNat + volume.tableCount.toNat * volume.sectorsPerTable.toNat := by
  rw [Nat.add_assoc, ← Nat.succ_mul]
  exact Nat.add_le_add_left (Nat.mul_le_mul_right _ h.activeTable) _

theorem toNat_tableStart : volume.tableStart.toNat =
    volume.reservedSectors.toNat + volume.activeTable.toNat * volume.sectorsPerTable.toNat := by
  have htotal := volume.totalSectors.toNat_lt
  have hactive := h.activeTable_lt_dataArea
  have hdata := h.dataArea
  rw [tableStart, UInt32.toNat_add, UInt32.toNat_mul, UInt16.toNat_toUInt32, UInt8.toNat_toUInt32,
    Nat.add_mod_mod, Nat.mod_eq_of_lt (by omega)]

theorem tableStart_add_le : volume.tableStart.toNat + volume.sectorsPerTable.toNat ≤
    volume.dataStart.toNat := by
  rw [h.toNat_tableStart, h.toNat_dataStart]
  exact h.activeTable_lt_dataArea

theorem dataStart_lt : volume.dataStart.toNat < volume.totalSectors.toNat := by
  rw [h.toNat_dataStart]
  exact h.dataArea

/-! ## Clusters -/

theorem toNat_clusterCount : volume.clusterCount.toNat =
    min ((volume.totalSectors.toNat - volume.dataStart.toNat) / volume.sectorsPerCluster.toNat)
      (volume.tableEntries - 2) := by
  have hle : volume.dataStart ≤ volume.totalSectors :=
    UInt32.le_iff_toNat_le.mpr (Nat.le_of_lt h.dataStart_lt)
  have hdata : ((volume.totalSectors - volume.dataStart) /
      volume.sectorsPerCluster.toUInt32).toNat =
      (volume.totalSectors.toNat - volume.dataStart.toNat) / volume.sectorsPerCluster.toNat := by
    rw [UInt32.toNat_div, UInt32.toNat_sub_of_le _ _ hle, UInt8.toNat_toUInt32]
  have hentries : (UInt32.ofNat (min (volume.tableEntries - 2) (UInt32.size - 1))).toNat =
      min (volume.tableEntries - 2) (UInt32.size - 1) :=
    UInt32.toNat_ofNat_of_lt' (by simp only [UInt32.size]; omega)
  -- no volume has so many sectors that the last bound would count
  have hlt := ((volume.totalSectors - volume.dataStart) /
    volume.sectorsPerCluster.toUInt32).toNat_lt
  rw [clusterCount, toNat_min, hentries, ← hdata]
  simp only [UInt32.size] at *
  omega

theorem clusterCount_mul_le : volume.clusterCount.toNat * volume.sectorsPerCluster.toNat ≤
    volume.totalSectors.toNat - volume.dataStart.toNat := by
  rw [h.toNat_clusterCount]
  exact Nat.le_trans (Nat.mul_le_mul_right _ (Nat.min_le_left _ _)) (Nat.div_mul_le_self _ _)

theorem toNat_maxCluster : volume.maxCluster.toNat = volume.clusterCount.toNat + 1 := by
  have htotal := volume.totalSectors.toNat_lt
  have htable := h.tableStart_add_le
  have hsectors := h.sectorsPerTable
  have hcount : volume.clusterCount.toNat ≤
      volume.totalSectors.toNat - volume.dataStart.toNat :=
    Nat.le_trans (Nat.le_mul_of_pos_right _ h.sectorsPerCluster_pos) h.clusterCount_mul_le
  rw [maxCluster, UInt32.toNat_add, UInt32.toNat_one, Nat.mod_eq_of_lt (by omega)]

theorem isDataCluster_iff {cluster : UInt32} : volume.isDataCluster cluster ↔
    2 ≤ cluster.toNat ∧ cluster.toNat < volume.clusterCount.toNat + 2 := by
  rw [isDataCluster_iff_le, UInt32.le_iff_toNat_le, UInt32.le_iff_toNat_le, h.toNat_maxCluster,
    Nat.lt_succ_iff]
  rfl

variable {cluster : UInt32}

theorem toNat_lt_tableEntries (hcluster : volume.isDataCluster cluster) :
    cluster.toNat < volume.tableEntries := by
  obtain ⟨hlow, hhigh⟩ := h.isDataCluster_iff.mp hcluster
  rw [h.toNat_clusterCount] at hhigh
  omega

theorem entry_div_lt (hcluster : volume.isDataCluster cluster) :
    cluster.toNat * 4 / volume.bytesPerSector.toNat < volume.sectorsPerTable.toNat := by
  have hpos : 0 < volume.bytesPerSector.toNat := Nat.lt_of_lt_of_le (by decide) h.le_bytesPerSector
  have hentries := h.toNat_lt_tableEntries hcluster
  rw [tableEntries] at hentries
  rw [Nat.div_lt_iff_lt_mul hpos]
  omega

theorem toNat_entrySector (hcluster : volume.isDataCluster cluster) :
    (volume.entrySector cluster).toNat =
      volume.tableStart.toNat + cluster.toNat * 4 / volume.bytesPerSector.toNat := by
  have hentry := h.entry_div_lt hcluster
  have htable := h.tableStart_add_le
  have hstart := volume.dataStart.toNat_lt
  rw [entrySector, UInt32.toNat_add, UInt32.toNat_ofNat_of_lt' (by simp only [UInt32.size]; omega),
    Nat.mod_eq_of_lt (by omega)]

theorem entrySector_spec (hcluster : volume.isDataCluster cluster) :
    volume.tableStart.toNat ≤ (volume.entrySector cluster).toNat ∧
      (volume.entrySector cluster).toNat <
        volume.tableStart.toNat + volume.sectorsPerTable.toNat := by
  have hentry := h.entry_div_lt hcluster
  rw [h.toNat_entrySector hcluster]
  exact ⟨Nat.le_add_right _ _, Nat.add_lt_add_left hentry _⟩

theorem clusterSector_spec (hcluster : volume.isDataCluster cluster) :
    (volume.clusterSector cluster).toNat =
      volume.dataStart.toNat + (cluster.toNat - 2) * volume.sectorsPerCluster.toNat ∧
    (volume.clusterSector cluster).toNat + volume.sectorsPerCluster.toNat ≤
      volume.totalSectors.toNat := by
  obtain ⟨hlow, hhigh⟩ := h.isDataCluster_iff.mp hcluster
  have htotal := volume.totalSectors.toNat_lt
  have hend : volume.dataStart.toNat + (cluster.toNat - 2) * volume.sectorsPerCluster.toNat +
      volume.sectorsPerCluster.toNat ≤ volume.totalSectors.toNat := by
    have hcount := h.clusterCount_mul_le
    have hstart := h.dataStart_lt
    have hlast : (cluster.toNat - 2 + 1) * volume.sectorsPerCluster.toNat ≤
        volume.clusterCount.toNat * volume.sectorsPerCluster.toNat :=
      Nat.mul_le_mul_right _ (by omega)
    rw [Nat.succ_mul] at hlast
    omega
  have hsub : (cluster - 2).toNat = cluster.toNat - 2 :=
    UInt32.toNat_sub_of_le _ _ (UInt32.le_iff_toNat_le.mpr hlow)
  have hpos := h.sectorsPerCluster_pos
  have hstart : (volume.clusterSector cluster).toNat =
      volume.dataStart.toNat + (cluster.toNat - 2) * volume.sectorsPerCluster.toNat := by
    rw [clusterSector, UInt32.toNat_add, UInt32.toNat_mul, hsub, UInt8.toNat_toUInt32,
      Nat.add_mod_mod, Nat.mod_eq_of_lt (by omega)]
  exact ⟨hstart, hstart ▸ hend⟩

theorem clusterSector_disjoint {other : UInt32} (hcluster : volume.isDataCluster cluster)
    (hother : volume.isDataCluster other) (hne : cluster ≠ other) :
    (volume.clusterSector cluster).toNat + volume.sectorsPerCluster.toNat ≤
        (volume.clusterSector other).toNat ∨
      (volume.clusterSector other).toNat + volume.sectorsPerCluster.toNat ≤
        (volume.clusterSector cluster).toNat := by
  have hstep {a b : Nat} (hlt : a < b) :
      a * volume.sectorsPerCluster.toNat + volume.sectorsPerCluster.toNat ≤
        b * volume.sectorsPerCluster.toNat :=
    Nat.succ_mul a _ ▸ Nat.mul_le_mul_right _ hlt
  have hlow := (h.isDataCluster_iff.mp hcluster).1
  have hlow' := (h.isDataCluster_iff.mp hother).1
  have hnumbers : cluster.toNat ≠ other.toNat := fun h => hne (UInt32.toNat_inj.mp h)
  rw [(h.clusterSector_spec hcluster).1, (h.clusterSector_spec hother).1]
  rcases Nat.lt_or_gt_of_ne hnumbers with hlt | hlt
  · have := hstep (show cluster.toNat - 2 < other.toNat - 2 by omega)
    omega
  · have := hstep (show other.toNat - 2 < cluster.toNat - 2 by omega)
    omega

end Accepted

/-! ## The root -/

/-- The cluster of the root is checked against the data area, and not against the table. -/
theorem rootCluster_of_parse {bytes : Bytes} {volume : Volume} (h : parse bytes = .ok volume) :
    2 ≤ volume.rootCluster.toNat ∧ volume.rootCluster.toNat ≤
      (volume.totalSectors.toNat - volume.dataStart.toNat) / volume.sectorsPerCluster.toNat +
        1 := by
  obtain ⟨record, hflaw, rfl⟩ := exists_record_of_parse h
  rw [(accepted_ofRecord hflaw).toNat_dataStart]
  simp only [BootRecord.flaw?, ite_some_eq_none] at hflaw
  obtain ⟨-, -, -, -, -, -, -, -, hlow, hhigh, -⟩ := hflaw
  exact ⟨UInt32.le_iff_toNat_le.mp (UInt32.not_lt.mp hlow), Nat.not_lt.mp hhigh⟩

theorem isDataCluster_rootCluster_iff {bytes : Bytes} {volume : Volume}
    (h : parse bytes = .ok volume) :
    volume.isDataCluster volume.rootCluster ↔
      volume.rootCluster.toNat < volume.tableEntries := by
  obtain ⟨hlow, hhigh⟩ := rootCluster_of_parse h
  have haccepted := accepted_of_parse h
  rw [haccepted.isDataCluster_iff, haccepted.toNat_clusterCount]
  omega

/-! ## Bytes -/

def entryStart (volume : Volume) (cluster : UInt32) : Nat :=
  volume.tableStart.toNat * volume.bytesPerSector.toNat + cluster.toNat * 4

def contentStart (volume : Volume) (cluster : UInt32) : Nat :=
  (volume.clusterSector cluster).toNat * volume.bytesPerSector.toNat

theorem entryStart_disjoint (volume : Volume) {cluster other : UInt32} (hne : cluster ≠ other) :
    volume.entryStart cluster + 4 ≤ volume.entryStart other ∨
      volume.entryStart other + 4 ≤ volume.entryStart cluster := by
  have hnumbers : cluster.toNat ≠ other.toNat := fun h => hne (UInt32.toNat_inj.mp h)
  rw [entryStart, entryStart]
  omega

namespace Accepted

variable {volume : Volume} (h : volume.Accepted) {cluster other : UInt32}

include h

theorem entryStart_eq (hdata : volume.isDataCluster cluster) :
    volume.entryStart cluster = (volume.entrySector cluster).toNat * volume.bytesPerSector.toNat +
      volume.entryOffset cluster := by
  have hentry := Nat.div_add_mod (cluster.toNat * 4) volume.bytesPerSector.toNat
  rw [h.toNat_entrySector hdata, entryStart, entryOffset, Nat.add_mul, Nat.add_assoc,
    Nat.mul_comm (cluster.toNat * 4 / _), hentry]

theorem entryOffset_add_le (cluster : UInt32) :
    volume.entryOffset cluster + 4 ≤ volume.bytesPerSector.toNat := by
  have hfour : 2 ^ 2 ∣ volume.bytesPerSector.toNat := h.pow_dvd_bytesPerSector (by decide)
  obtain ⟨words, hwords⟩ : 4 ∣ volume.bytesPerSector.toNat := hfour
  have hpos : 0 < words := by
    have := h.le_bytesPerSector
    omega
  have hlt := Nat.mod_lt cluster.toNat hpos
  rw [entryOffset, hwords, Nat.mul_comm 4 words, Nat.mul_mod_mul_right]
  omega

theorem dvd_clusterSize : 32 ∣ volume.clusterSize := by
  have hslot : 2 ^ 5 ∣ volume.bytesPerSector.toNat := h.pow_dvd_bytesPerSector (by decide)
  exact Nat.dvd_mul_right_of_dvd hslot _

theorem contentStart_eq (hdata : volume.isDataCluster cluster) :
    volume.contentStart cluster = volume.dataStart.toNat * volume.bytesPerSector.toNat +
      (cluster.toNat - 2) * volume.clusterSize := by
  rw [contentStart, (h.clusterSector_spec hdata).1, clusterSize, Nat.add_mul, Nat.mul_assoc,
    Nat.mul_comm volume.sectorsPerCluster.toNat]

theorem entryStart_add_le_contentStart (hentry : cluster.toNat < volume.tableEntries)
    (hdata : volume.isDataCluster other) :
    volume.entryStart cluster + 4 ≤ volume.contentStart other := by
  have htable := Nat.mul_le_mul_right volume.bytesPerSector.toNat h.tableStart_add_le
  rw [Nat.add_mul] at htable
  rw [tableEntries] at hentry
  rw [h.contentStart_eq hdata, entryStart]
  omega

theorem contentStart_disjoint (hcluster : volume.isDataCluster cluster)
    (hother : volume.isDataCluster other) (hne : cluster ≠ other) :
    volume.contentStart cluster + volume.clusterSize ≤ volume.contentStart other ∨
      volume.contentStart other + volume.clusterSize ≤ volume.contentStart cluster := by
  have hbytes {a b : Nat} (hle : a + volume.sectorsPerCluster.toNat ≤ b) :
      a * volume.bytesPerSector.toNat + volume.clusterSize ≤ b * volume.bytesPerSector.toNat := by
    have hmul := Nat.mul_le_mul_right volume.bytesPerSector.toNat hle
    rwa [Nat.add_mul, Nat.mul_comm volume.sectorsPerCluster.toNat] at hmul
  exact (h.clusterSector_disjoint hcluster hother hne).imp hbytes hbytes

end Accepted

end Volume

end Fat32
