import Fat32.Proofs.Bytes
import Fat32.Proofs.Specimen
import Fat32.Proofs.Volume.Geometry
import Mathlib.Data.Nat.Bitwise

/-!
# Boot records

Where the values of a boot record stand in its bytes, and which records describe a volume. The
fields do not overlap, so any values can stand in any bytes, and reading gives them back. Which of
them are accepted is said here in numbers without bounds: no sum or product of the fields can be
so large that it passes for a small one.
-/

namespace Fat32

namespace BootRecord

/-! ## Fields -/

def parts (record : BootRecord) : List (Nat × Bytes) :=
  let word16 (word : UInt16) : Bytes := .ofValue 2 word.toNat
  let word32 (word : UInt32) : Bytes := .ofValue 4 word.toNat
  [(0, record.jump.toList),
    (3, record.oemName.toList),
    (11, word16 record.bytesPerSector),
    (13, [record.sectorsPerCluster]),
    (14, word16 record.reservedSectors),
    (16, [record.tableCount]),
    (17, word16 record.rootEntries),
    (19, word16 record.totalSectors16),
    (21, [record.media]),
    (22, word16 record.tableSectors16),
    (28, word32 record.hiddenSectors),
    (32, word32 record.totalSectors32),
    (36, word32 record.tableSectors32),
    (40, word16 record.flags),
    (42, word16 record.version),
    (44, word32 record.rootCluster),
    (48, word16 record.hintSector),
    (50, word16 record.backupSector),
    (64, [record.driveNumber]),
    (66, [record.extendedSignature]),
    (67, word32 record.volumeId),
    (71, record.label.toList),
    (82, record.formatName.toList),
    (510, word16 record.signature)]

/-- The fields stand in the bytes; between and after them may stand anything. -/
def StoredIn (record : BootRecord) (bytes : Bytes) : Prop :=
  ∀ part ∈ record.parts, bytes.HasAt part.1 part.2

instance (record : BootRecord) (bytes : Bytes) : Decidable (record.StoredIn bytes) :=
  inferInstanceAs (Decidable (∀ part ∈ record.parts, bytes.HasAt part.1 part.2))

theorem StoredIn.ofBytes?_eq {record : BootRecord} {bytes : Bytes} (h : record.StoredIn bytes)
    (hlength : length ≤ bytes.length) : ofBytes? bytes = some record := by
  simp only [StoredIn, parts, List.forall_mem_cons] at h
  obtain ⟨hjump, hoem, hsector, hcluster, hreserved, hcount, hroot, htotal16, hmedia, htable16,
    hhidden, htotal32, htable32, hflags, hversion, hrootCluster, hhint, hbackup, hdrive, hextended,
    hid, hlabel, hformat, hsignature, -⟩ := h
  rw [ofBytes?, if_neg (Nat.not_lt.mpr hlength), hjump.fieldAt_eq, hoem.fieldAt_eq,
    hsector.u16At_eq, hcluster.byteAt_eq, hreserved.u16At_eq, hcount.byteAt_eq, hroot.u16At_eq,
    htotal16.u16At_eq, hmedia.byteAt_eq, htable16.u16At_eq, hhidden.u32At_eq, htotal32.u32At_eq,
    htable32.u32At_eq, hflags.u16At_eq, hversion.u16At_eq, hrootCluster.u32At_eq, hhint.u16At_eq,
    hbackup.u16At_eq, hdrive.byteAt_eq, hextended.byteAt_eq, hid.u32At_eq, hlabel.fieldAt_eq,
    hformat.fieldAt_eq, hsignature.u16At_eq]

theorem exists_storedIn (record : BootRecord) {bytes : Bytes} (hlength : length ≤ bytes.length) :
    ∃ written : Bytes, written.length = bytes.length ∧ record.StoredIn written ∧
      ∀ i, (∀ part ∈ record.parts, i < part.1 ∨ part.1 + part.2.length ≤ i) →
        written[i]? = bytes[i]? := by
  have hspans : record.parts.map (fun part => (part.1, part.2.length)) =
      [(0, 3), (3, 8), (11, 2), (13, 1), (14, 2), (16, 1), (17, 2), (19, 2), (21, 1), (22, 2),
        (28, 4), (32, 4), (36, 4), (40, 2), (42, 2), (44, 4), (48, 2), (50, 2), (64, 1), (66, 1),
        (67, 4), (71, 11), (82, 8), (510, 2)] := by
    simp [parts]
  refine Bytes.exists_hasAt ?_ ?_
  · have hroom : ∀ span ∈ record.parts.map fun part => (part.1, part.2.length),
        span.1 + span.2 ≤ length := by
      rw [hspans]
      decide
    exact fun part hpart => Nat.le_trans (hroom _ (List.mem_map_of_mem hpart)) hlength
  · have happart : (record.parts.map fun part => (part.1, part.2.length)).Pairwise
        fun span later => span.1 + span.2 ≤ later.1 := by
      rw [hspans]
      decide
    exact List.pairwise_map.mp happart

/-! ## Values -/

def total (record : BootRecord) : Nat :=
  if record.totalSectors16 = 0 then record.totalSectors32.toNat else record.totalSectors16.toNat

def activeCopy (record : BootRecord) : Nat :=
  if record.flags.toNat.testBit 7 then record.flags.toNat % 16 else 0

structure IsFat32 (record : BootRecord) : Prop where
  jump : record.jump.toList.head? ∈ [some 0xEB, some 0xE9, some 0xE8]
  signature : record.signature = 0xAA55
  bytesPerSector : record.bytesPerSector.toNat ∈ [512, 1024, 2048, 4096]
  sectorsPerCluster : ∃ k, record.sectorsPerCluster.toNat = 2 ^ k
  tableCount : 1 ≤ record.tableCount.toNat
  tableSectors16 : record.tableSectors16.toNat = 0
  tableSectors32 : 0 < record.tableSectors32.toNat
  activeCopy : record.activeCopy < record.tableCount.toNat
  dataArea : record.reservedSectors.toNat +
    record.tableCount.toNat * record.tableSectors32.toNat < record.total
  two_le_root : 2 ≤ record.rootCluster.toNat
  root_le : (record.rootCluster.toNat : Int) ≤
    (record.total - record.reservedSectors.toNat -
      record.tableCount.toNat * record.tableSectors32.toNat : Int) /
        record.sectorsPerCluster.toNat + 1

structure Describes (record : BootRecord) (volume : Volume) : Prop where
  bytesPerSector : volume.bytesPerSector = record.bytesPerSector
  sectorsPerCluster : volume.sectorsPerCluster = record.sectorsPerCluster
  reservedSectors : volume.reservedSectors = record.reservedSectors
  tableCount : volume.tableCount = record.tableCount
  sectorsPerTable : volume.sectorsPerTable = record.tableSectors32
  rootCluster : volume.rootCluster = record.rootCluster
  totalSectors : volume.totalSectors.toNat = record.total
  activeTable : volume.activeTable.toNat = record.activeCopy
  hintSector : volume.hintSector = record.hintSector
  volumeId : volume.volumeId = record.volumeId
  oemField : volume.oemField = record.oemName
  labelField : volume.labelField =
    if record.extendedSignature = 0x29 then record.label else .replicate 11 0x20

theorem toNat_totalSectors (record : BootRecord) : record.totalSectors.toNat = record.total := by
  rw [totalSectors, total]
  by_cases h : record.totalSectors16 = 0
  · rw [if_neg (Classical.not_not.mpr h), if_pos h]
  · rw [if_pos h, if_neg h, UInt16.toNat_toUInt32]

theorem toNat_activeTable (record : BootRecord) :
    record.activeTable.toNat = record.activeCopy := by
  have hbit : record.flags &&& 0x80 ≠ 0 ↔ record.flags.toNat.testBit 7 = true := by
    have hand : (record.flags &&& 0x80).toNat = (record.flags.toNat.testBit 7).toNat * 2 ^ 7 := by
      rw [UInt16.toNat_and]
      exact Nat.and_two_pow record.flags.toNat 7
    rw [ne_eq, ← UInt16.toNat_inj, hand]
    cases record.flags.toNat.testBit 7 <;> decide
  have hlow : (record.flags &&& 0x0F).toUInt8.toNat = record.flags.toNat % 16 := by
    rw [UInt16.toNat_toUInt8, UInt16.toNat_and]
    have hand := Nat.and_two_pow_sub_one_eq_mod record.flags.toNat 4
    have hlt := Nat.mod_lt record.flags.toNat (show 0 < 16 by decide)
    simp only [Nat.reducePow, Nat.reduceSub] at hand
    change (record.flags.toNat &&& 15) % 256 = _
    omega
  rw [activeTable, activeCopy]
  by_cases h : record.flags.toNat.testBit 7
  · rw [if_pos (hbit.mpr h), if_pos h, hlow]
  · rw [if_neg (mt hbit.mp h), if_neg h]
    rfl

/-! ## Records of volumes -/

private theorem le_div_succ_iff {root total reserved tables size : Nat}
    (h : reserved + tables < total) :
    (root : Int) ≤ (total - reserved - tables : Int) / size + 1 ↔
      root ≤ (total - (reserved + tables)) / size + 1 := by
  have hdata : (total - reserved - tables : Int) = (total - (reserved + tables) : Nat) := by
    omega
  rw [hdata, ← Int.natCast_ediv]
  omega

theorem flaw?_eq_none_iff (record : BootRecord) : record.flaw? = none ↔ record.IsFat32 := by
  have hsectors (h : record.tableSectors16 = 0) : record.tableSectors = record.tableSectors32 :=
    if_neg (not_not_intro h)
  have hopcode : record.jump[0] ∈ jumpOpcodes ↔
      record.jump.toList.head? ∈ [some 0xEB, some 0xE9, some 0xE8] := by
    simp [List.head?_eq_getElem?, jumpOpcodes]
  simp only [flaw?, ite_some_eq_none, Decidable.not_not, not_or, hopcode]
  constructor
  · rintro ⟨hjump, hsignature, hsector, hcluster, hcount, ⟨htable16, htable32⟩, hactive, hdata,
      hlow, hhigh, -⟩
    rw [toNat_totalSectors, dataStart, hsectors htable16] at hdata hhigh
    rw [Nat.not_le] at hdata
    refine ⟨hjump, hsignature, ?_, ?_, ?_, ?_, ?_, ?_, hdata, ?_, ?_⟩
    · simpa [sectorSizes, ← UInt16.toNat_inj] using hsector
    · exact isPowerOfTwo_iff.mp (by simpa using hcluster)
    · exact Nat.pos_iff_ne_zero.mpr fun hzero => hcount (UInt8.toNat_inj.mp hzero)
    · exact UInt16.toNat_inj.mpr htable16
    · exact Nat.pos_iff_ne_zero.mpr fun hzero => htable32 (UInt32.toNat_inj.mp hzero)
    · rw [← toNat_activeTable]
      exact UInt8.lt_iff_toNat_lt.mp (UInt8.not_le.mp hactive)
    · exact UInt32.le_iff_toNat_le.mp (UInt32.not_lt.mp hlow)
    · exact_mod_cast (le_div_succ_iff hdata).mpr (Nat.not_lt.mp hhigh)
  · intro h
    have htable16 : record.tableSectors16 = 0 := UInt16.toNat_inj.mp h.tableSectors16
    have htable32 : record.tableSectors32 ≠ 0 := fun hzero =>
      Nat.ne_of_gt h.tableSectors32 (UInt32.toNat_inj.mpr hzero)
    have hcount : record.tableCount ≠ 0 := fun hzero =>
      Nat.ne_of_gt h.tableCount (UInt8.toNat_inj.mpr hzero)
    have hroot := h.root_le
    rw [← Int.natCast_mul, le_div_succ_iff h.dataArea] at hroot
    rw [toNat_totalSectors, dataStart, hsectors htable16]
    refine ⟨h.jump, h.signature, ?_, ?_, hcount,
      ⟨htable16, htable32⟩, ?_, Nat.not_le.mpr h.dataArea, ?_, Nat.not_lt.mpr hroot, trivial⟩
    · simpa [sectorSizes, ← UInt16.toNat_inj] using h.bytesPerSector
    · simpa using isPowerOfTwo_iff.mpr h.sectorsPerCluster
    · rw [ge_iff_le, UInt8.le_iff_toNat_le, toNat_activeTable]
      exact Nat.not_le.mpr h.activeCopy
    · exact UInt32.not_lt.mpr (UInt32.le_iff_toNat_le.mpr h.two_le_root)

theorem IsFat32.describes_iff {record : BootRecord} (h : record.IsFat32) (volume : Volume) :
    record.Describes volume ↔ Volume.ofRecord record = volume := by
  have hsectors : record.tableSectors = record.tableSectors32 :=
    if_neg (not_not_intro (UInt16.toNat_inj.mp h.tableSectors16))
  constructor
  · intro hdescribes
    have htotal : record.totalSectors = volume.totalSectors := by
      rw [← UInt32.toNat_inj, toNat_totalSectors, hdescribes.totalSectors]
    have hactive : record.activeTable = volume.activeTable := by
      rw [← UInt8.toNat_inj, toNat_activeTable, hdescribes.activeTable]
    have hlabel : (if record.extendedSignature = Volume.extendedSignature then record.label
        else .replicate 11 0x20) = volume.labelField :=
      hdescribes.labelField.symm
    rw [Volume.ofRecord, hsectors, htotal, hactive, hlabel, ← hdescribes.bytesPerSector,
      ← hdescribes.sectorsPerCluster, ← hdescribes.reservedSectors, ← hdescribes.tableCount,
      ← hdescribes.sectorsPerTable, ← hdescribes.rootCluster, ← hdescribes.hintSector,
      ← hdescribes.volumeId, ← hdescribes.oemField]
  · rintro rfl
    exact ⟨rfl, rfl, rfl, rfl, hsectors, rfl, toNat_totalSectors record, toNat_activeTable record,
      rfl, rfl, rfl, rfl⟩

end BootRecord

/-- What is stored in the bytes of a boot record is read back, and accepted just when it describes
a volume, which then has these values. Any values can be stored, whatever else the bytes hold. -/
theorem Volume.parse_exact {bytes : Bytes} (hlength : BootRecord.length ≤ bytes.length) :
    (∀ record : BootRecord, record.StoredIn bytes →
      BootRecord.ofBytes? bytes = some record ∧
      (∀ volume, parse bytes = .ok volume ↔ record.IsFat32 ∧ record.Describes volume) ∧
      ((∃ flaw, parse bytes = .error flaw) ↔ ¬ record.IsFat32)) ∧
    ∀ record : BootRecord, ∃ written : Bytes,
      written.length = bytes.length ∧ record.StoredIn written ∧
      ∀ i, (∀ part ∈ record.parts, i < part.1 ∨ part.1 + part.2.length ≤ i) →
        written[i]? = bytes[i]? := by
  refine ⟨fun record hstored => ?_, fun record => record.exists_storedIn hlength⟩
  have hread := hstored.ofBytes?_eq hlength
  cases hflaw : record.flaw? with
  | none =>
      have hfat := record.flaw?_eq_none_iff.mp hflaw
      have hparse : parse bytes = .ok (ofRecord record) := by simp only [parse, hread, hflaw]
      refine ⟨hread, fun volume => ?_, by simp [hparse, hfat]⟩
      rw [hparse, and_iff_right hfat, hfat.describes_iff, Except.ok.injEq]
  | some flaw =>
      have hfat : ¬ record.IsFat32 := fun hfat => by
        simp [record.flaw?_eq_none_iff.mpr hfat] at hflaw
      have hparse : parse bytes = .error flaw := by simp only [parse, hread, hflaw]
      exact ⟨hread, fun volume => by simp [hparse, hfat], by simp [hparse, hfat]⟩

namespace Specimen

/-- A record with two tables, of which only the second is kept up to date. Its sectors are counted
in 16 bits, and its root is the last cluster. -/
def mirrored : BootRecord where
  jump := #v[0xEB, 0x58, 0x90]
  oemName := .replicate 8 0
  bytesPerSector := 512
  sectorsPerCluster := 1
  reservedSectors := 2
  tableCount := 2
  rootEntries := 0
  totalSectors16 := 9
  media := 0
  tableSectors16 := 0
  hiddenSectors := 0
  totalSectors32 := 0xFFFFFFFF
  tableSectors32 := 1
  flags := 0x81
  version := 0
  rootCluster := 6
  hintSector := 1
  backupSector := 0
  driveNumber := 0
  extendedSignature := 0x29
  volumeId := 0
  label := #v[0x41, 0x20, 0x20, 0x20, 0x20, 0x20, 0x20, 0x20, 0x20, 0x20, 0x20]
  formatName := .replicate 8 0
  signature := 0xAA55

def mirroredBytes : Bytes :=
  recordWith [(16, [2]), (19, [9]), (32, [0xFF, 0xFF, 0xFF, 0xFF]), (40, [0x81]), (44, [6]),
    (66, [0x29]), (71, 0x41 :: .replicate 10 0x20), (90, [1, 2, 3])] ++ [4, 5, 6]

theorem isFat32_mirrored : mirrored.IsFat32 where
  jump := by decide
  signature := rfl
  bytesPerSector := by decide
  sectorsPerCluster := ⟨0, rfl⟩
  tableCount := by decide
  tableSectors16 := rfl
  tableSectors32 := by decide
  activeCopy := by decide
  dataArea := by decide
  two_le_root := by decide
  root_le := by decide

/-- The root of the record is the last that is accepted, and the next one is not. -/
theorem parse_exact_mirrored :
    BootRecord.length ≤ mirroredBytes.length ∧ mirrored.StoredIn mirroredBytes ∧
      BootRecord.ofBytes? mirroredBytes = some mirrored ∧
      Volume.parse mirroredBytes = .ok { volume with
        tableCount := 2
        rootCluster := 6
        activeTable := 1
        labelField := #v[0x41, 0x20, 0x20, 0x20, 0x20, 0x20, 0x20, 0x20, 0x20, 0x20, 0x20] } ∧
      ∃ written : Bytes, ({ mirrored with rootCluster := 7 }).StoredIn written ∧
        ∃ flaw, Volume.parse written = .error flaw := by
  have hlength : BootRecord.length ≤ mirroredBytes.length := by decide +kernel
  have hstored : mirrored.StoredIn mirroredBytes := by decide +kernel
  obtain ⟨hexact, hstore⟩ := Volume.parse_exact hlength
  obtain ⟨hread, hparse, -⟩ := hexact mirrored hstored
  obtain ⟨written, hwritten, hother, -⟩ := hstore { mirrored with rootCluster := 7 }
  refine ⟨hlength, hstored, hread, ?_, written, hother, ?_⟩
  · exact (hparse _).mpr ⟨isFat32_mirrored, rfl, rfl, rfl, rfl, rfl, rfl, rfl, rfl, rfl, rfl, rfl,
      rfl⟩
  · refine ((Volume.parse_exact (hwritten ▸ hlength)).1 _ hother).2.2.mpr fun h => ?_
    exact absurd h.root_le (by decide)

end Specimen

end Fat32
