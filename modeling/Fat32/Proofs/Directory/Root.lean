import Fat32.Proofs.Directory.Laziness

/-!
# The root directory

The cluster of the root is checked when a boot record is accepted, but only against the end of the
volume. Where the table is too small for the data area, the root may begin with a cluster that has
no entry. It counts as no data cluster then, and the root cannot be read.
-/

namespace Fat32

variable {volume : Volume} {session : Session} {start cluster : UInt32}

theorem Chain.Breaks.of_invalidCluster {device : Device} {path : List UInt32}
    (h : Breaks volume (volume.linkOn device) start path (.invalidCluster cluster)) :
    cluster = start ∧ ¬ volume.isDataCluster start := by
  cases h with
  | invalid hstart => exact ⟨rfl, hstart⟩
  | flawed _ _ hflaw =>
      -- no flaw has such an error, and a link that cannot be read has that of the read
      cases hflaw with
      | unreadable hlink =>
          obtain ⟨sector, fault, hio⟩ := Volume.io_of_sectorsOn (eq_error_of_map hlink)
          contradiction

namespace Volume

theorem of_contentOf_invalidCluster {items : List (Except Error UInt32)}
    {item : Except Error UInt32}
    (hitems : Chain.Yields volume session.device.medium (.ofStart volume start) items)
    (hitem : item ∈ items)
    (h : volume.contentOf session.device item = .error (.invalidCluster cluster)) :
    cluster = start ∧ ¬ volume.isDataCluster start := by
  rcases hitems.mem_cases hitem with ⟨yielded, rfl, hdata⟩ | ⟨path, error, rfl, hbreaks⟩
  · obtain ⟨sector, fault, hio⟩ := io_of_clusterOn hdata h
    contradiction
  · obtain rfl : error = .invalidCluster cluster := Except.error.inj h
    exact hbreaks.of_invalidCluster

theorem readDir_of_not_data (hstart : ¬ volume.isDataCluster start) :
    ((volume.readDir start).perform session).1 = .error (.invalidCluster start) := by
  have hbreaks : Chain.Breaks volume (volume.linkOn session.device.medium) start []
      (.invalidCluster start) :=
    .invalid hstart
  rw [perform_readDir hbreaks.yields (Nat.le_add_left _ _)]
  rfl

theorem readDir_eq_invalidCluster_iff (h : volume.Accepted) (start cluster : UInt32) :
    ((volume.readDir start).perform session).1 = .error (.invalidCluster cluster) ↔
      cluster = start ∧ ¬ volume.isDataCluster start := by
  constructor
  · intro hread
    obtain ⟨items, hitems, hlength, -⟩ :=
      Chain.exists_yields_begins volume session.device.medium start
    rw [perform_readDir hitems hlength, forIn_decodedOn h rfl] at hread
    obtain ⟨before, item, after, -, hsplit, -, hitem⟩ :=
      mapM_eq_error_iff.mp (eq_error_of_map hread)
    have hmem : item ∈ before ++ item :: after := List.mem_append_cons_self
    rw [← hsplit] at hmem
    exact of_contentOf_invalidCluster hitems (List.mem_of_mem_take hmem) hitem
  · rintro ⟨rfl, hstart⟩
    exact readDir_of_not_data hstart

/-- The root of an accepted volume is a data cluster just when the table has an entry for it. When
it has none, and only then, reading the root fails for its cluster. -/
theorem root_usable_iff {bytes : Bytes} (h : parse bytes = .ok volume) :
    (volume.isDataCluster volume.rootCluster ↔
      volume.rootCluster.toNat < volume.tableEntries) ∧
    ∀ session : Session, ((volume.readDir volume.rootCluster).perform session).1 =
        .error (.invalidCluster volume.rootCluster) ↔
      volume.tableEntries ≤ volume.rootCluster.toNat := by
  have hroot := isDataCluster_rootCluster_iff h
  refine ⟨hroot, fun session => ?_⟩
  rw [readDir_eq_invalidCluster_iff (accepted_of_parse h), hroot, Nat.not_lt]
  exact and_iff_right rfl

end Volume

namespace Specimen

/-- The data area has 127 clusters, and the table of one sector has entries for 126 of them. The
root is the cluster after these. -/
def overhungRecord : Bytes := recordWith [(14, [1]), (32, [129]), (44, [128])]

def overhung : Volume :=
  { Specimen.volume with reservedSectors := 1, rootCluster := 128, totalSectors := 129 }

theorem parse_overhungRecord : Volume.parse overhungRecord = .ok overhung :=
  eq_ok_of_toOption (by decide +kernel)

end Specimen

namespace Volume

/-- The root is accepted, and cannot be read from any device. -/
theorem root_usable_overhung :
    parse Specimen.overhungRecord = .ok Specimen.overhung ∧
      Specimen.overhung.rootCluster = 128 ∧ Specimen.overhung.tableEntries = 128 ∧
      ∀ session : Session, ((Specimen.overhung.readDir 128).perform session).1 =
        .error (.invalidCluster 128) := by
  have hparse := Specimen.parse_overhungRecord
  exact ⟨hparse, rfl, rfl, fun session =>
    ((root_usable_iff hparse).2 session).mpr (by decide)⟩

theorem not_forall_isDataCluster_rootCluster :
    ¬ ∀ (bytes : Bytes) (volume : Volume), parse bytes = .ok volume →
      volume.isDataCluster volume.rootCluster := by
  intro h
  exact absurd (h _ _ Specimen.parse_overhungRecord) (by decide)

end Volume

end Fat32
