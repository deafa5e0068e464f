import Fat32.Proofs.Cluster.Resolution
import Fat32.Proofs.ReadLog
import Fat32.Proofs.Specimen
import Fat32.Proofs.Volume.Geometry

/-!
# The kept sector

A table that keeps the sector read last answers as tables do that keep nothing, in whatever order
clusters are asked about. Between the answers the device sees just the reads that keeping a sector
cannot save: those for a data cluster whose sector is not the last one that was read.
-/

namespace Fat32

/-! ## Reading one sector -/

def Volume.deviceAfter (volume : Volume) (device : Device) (number : UInt32) : Device :=
  let ratio := volume.bytesPerSector.toNat / device.sectorSize
  (device.readSectors (number.toNat * ratio) (1 * ratio) volume.bytesPerSector.toNat).2

/-- What is asked of a device with sectors of `size` bytes for one sector of the volume. -/
def Volume.sectorRead (volume : Volume) (size : Nat) (number : UInt32) : DeviceRead :=
  let ratio := volume.bytesPerSector.toNat / size
  ⟨number.toNat * ratio, 1 * ratio, volume.bytesPerSector.toNat⟩

def Volume.after (volume : Volume) (session : Session) (number : UInt32) : Session :=
  ⟨volume.deviceAfter session.device number,
    session.requests.push (volume.sectorRead session.device.sectorSize number), session.journal⟩

section

variable (volume : Volume)

theorem Volume.perform_readSector (session : Session) (number : UInt32) :
    (volume.readSectors number 1 volume.bytesPerSector.toNat).perform session =
      (volume.sectorsOn session.device number 1 volume.bytesPerSector.toNat,
        volume.after session number) := by
  rw [readSectors, Access.perform_get_bind, Session.perform_readSectors]
  rfl

theorem Volume.medium_deviceAfter (device : Device) (number : UInt32) :
    (volume.deviceAfter device number).medium = device.medium :=
  (device.readSectors_medium _ _ _).2

theorem Volume.foldl_after (session : Session) (numbers : List UInt32) :
    numbers.foldl volume.after session =
      ⟨numbers.foldl volume.deviceAfter session.device,
        session.requests ++
          (numbers.map (volume.sectorRead session.device.sectorSize)).toArray,
        session.journal⟩ := by
  induction numbers generalizing session with
  | nil => simp
  | cons number numbers ih =>
      have hsize : (volume.after session number).device.sectorSize = session.device.sectorSize :=
        Device.sectorSize_eq_of_medium (volume.medium_deviceAfter session.device number)
      rw [List.foldl_cons, ih, hsize]
      simp [after]

def Volume.answerOn (device : Device) (cluster : UInt32) : Except Error Link :=
  if volume.isDataCluster cluster then volume.linkOn device cluster
  else .error (.invalidCluster cluster)

end

namespace Table

/-! ## What is asked for -/

/-- Whether a table that read the sector `last` asks for another one to answer about a cluster. -/
def asks (volume : Volume) (last : Option UInt32) (cluster : UInt32) : Bool :=
  volume.isDataCluster cluster && last ≠ some (volume.entrySector cluster)

/-- The sector that was read last with success, once a table has answered about a cluster. -/
def lastAfter (volume : Volume) (device : Device) (last : Option UInt32) (cluster : UInt32) :
    Option UInt32 :=
  let number := volume.entrySector cluster
  let served := volume.sectorsOn device number 1 volume.bytesPerSector.toNat
  if asks volume last cluster && served.isOk then some number else last

/-- The sectors that a table that read `last` asks for to answer about clusters, in order. -/
def asked (volume : Volume) (device : Device) :
    (last : Option UInt32) → List UInt32 → List UInt32
  | _, [] => []
  | last, cluster :: clusters =>
      (if asks volume last cluster then [volume.entrySector cluster] else []) ++
        asked volume device (lastAfter volume device last cluster) clusters

def freshLinks (volume : Volume) : List UInt32 → StateM Session (List (Except Error Link))
  | [] => return []
  | cluster :: clusters => do
      let (answer, _) ← empty.link volume cluster
      return answer :: (← freshLinks volume clusters)

def last (table : Table) : Option UInt32 := table.kept.map Prod.fst

theorem kept?_eq_none_iff {table : Table} {number : UInt32} :
    table.kept? number = none ↔ table.last ≠ some number := by
  rcases table with ⟨_ | ⟨kept, bytes⟩⟩ <;> simp [kept?, last]

/-! ## One answer -/

variable {volume : Volume} {table : Table} {session : Session} {cluster : UInt32}

theorem run_link_of_asks (h : asks volume table.last cluster) (session : Session) :
    (table.link volume cluster).run session =
      ((volume.linkOn session.device cluster,
        match volume.sectorsOn session.device (volume.entrySector cluster) 1
            volume.bytesPerSector.toNat with
        | .ok bytes => ⟨some (volume.entrySector cluster, bytes)⟩
        | .error _ => table),
      volume.after session (volume.entrySector cluster)) := by
  have hread : (volume.readSectors (volume.entrySector cluster) 1
      volume.bytesPerSector.toNat).run.run session = _ := volume.perform_readSector session _
  obtain ⟨hdata, hlast⟩ := Bool.and_eq_true_iff.mp h
  rw [link, if_pos hdata, Session.run_bind, sector,
    kept?_eq_none_iff.mpr (of_decide_eq_true hlast)]
  dsimp only
  rw [Session.run_bind, hread, Volume.linkOn]
  cases volume.sectorsOn session.device (volume.entrySector cluster) 1
    volume.bytesPerSector.toNat <;> rfl

theorem run_link_of_kept {bytes : Bytes} (hdata : volume.isDataCluster cluster)
    (hkept : table.kept? (volume.entrySector cluster) = some bytes) (session : Session) :
    (table.link volume cluster).run session =
      ((.ok (.ofRaw (bytes.u32At (volume.entryOffset cluster))), table), session) := by
  rw [link, if_pos hdata, Session.run_bind, sector, hkept]
  rfl

theorem run_link_of_not_data (hdata : ¬ volume.isDataCluster cluster) (session : Session) :
    (table.link volume cluster).run session =
      ((.error (.invalidCluster cluster), table), session) := by
  rw [link, if_neg hdata]
  rfl

theorem exists_kept_of_not_asks (hdata : volume.isDataCluster cluster)
    (h : ¬ asks volume table.last cluster) :
    ∃ bytes, table.kept? (volume.entrySector cluster) = some bytes := by
  rw [← Option.ne_none_iff_exists', Ne, kept?_eq_none_iff]
  exact fun hlast => h (by simp [asks, hdata, hlast])

/-- An answer on an unchanging device is the one that a new table gives. What the table keeps then
is again a sector of that device, the one read last. -/
theorem exists_run_link (h : table.Faithful volume session.device) (cluster : UInt32) :
    ∃ after : Table, after.Faithful volume session.device ∧
      after.last = lastAfter volume session.device table.last cluster ∧
      (table.link volume cluster).run session =
        ((volume.answerOn session.device cluster, after),
          (if asks volume table.last cluster then [volume.entrySector cluster] else []).foldl
            volume.after session) := by
  by_cases hasks : asks volume table.last cluster
  · have hdata : volume.isDataCluster cluster := (Bool.and_eq_true_iff.mp hasks).1
    rw [run_link_of_asks hasks, Volume.answerOn, if_pos hdata, if_pos hasks, lastAfter, hasks]
    cases hserved : volume.sectorsOn session.device (volume.entrySector cluster) 1
        volume.bytesPerSector.toNat with
    | error error => exact ⟨table, h, rfl, rfl⟩
    | ok bytes => exact ⟨_, faithful_keep hserved, rfl, rfl⟩
  · have hlast : lastAfter volume session.device table.last cluster = table.last := by
      simp [lastAfter, hasks]
    refine ⟨table, h, hlast.symm, ?_⟩
    rw [if_neg hasks, Volume.answerOn]
    by_cases hdata : volume.isDataCluster cluster
    · obtain ⟨bytes, hbytes⟩ := exists_kept_of_not_asks hdata hasks
      rw [run_link_of_kept hdata hbytes, if_pos hdata, Volume.linkOn, h _ _ hbytes]
      rfl
    · rw [run_link_of_not_data hdata, if_neg hdata]
      rfl

theorem link_failed {error : Error}
    (h : ((table.link volume cluster).run session).1.1 = .error error) :
    ((table.link volume cluster).run session).1.2 = table := by
  by_cases hasks : asks volume table.last cluster
  · rw [run_link_of_asks hasks] at h ⊢
    dsimp only [Volume.linkOn] at h ⊢
    cases hserved : volume.sectorsOn session.device (volume.entrySector cluster) 1
        volume.bytesPerSector.toNat with
    | error error => rfl
    | ok bytes =>
        rw [hserved] at h
        contradiction
  · by_cases hdata : volume.isDataCluster cluster
    · obtain ⟨bytes, hbytes⟩ := exists_kept_of_not_asks hdata hasks
      rw [run_link_of_kept hdata hbytes]
    · rw [run_link_of_not_data hdata]

/-! ## Many answers -/

theorem Faithful.congr {device other : Device} (h : table.Faithful volume device)
    (hmedium : device.medium = other.medium) : table.Faithful volume other := by
  intro number bytes hkept
  rw [← volume.sectorsOn_medium other, ← hmedium, volume.sectorsOn_medium]
  exact h number bytes hkept

theorem answerOn_congr {device other : Device} (h : device.medium = other.medium) :
    volume.answerOn device = volume.answerOn other := by
  funext cluster
  rw [Volume.answerOn, ← volume.linkOn_medium device, h, volume.linkOn_medium, Volume.answerOn]

theorem asked_congr {device other : Device} (h : device.medium = other.medium)
    (last : Option UInt32) (clusters : List UInt32) :
    asked volume device last clusters = asked volume other last clusters := by
  have hlast (last : Option UInt32) (cluster : UInt32) :
      lastAfter volume device last cluster = lastAfter volume other last cluster := by
    rw [lastAfter, ← volume.sectorsOn_medium device, h, volume.sectorsOn_medium, lastAfter]
  induction clusters generalizing last with
  | nil => rfl
  | cons cluster clusters ih => rw [asked, asked, hlast, ih]

theorem medium_foldl_after (session : Session) (numbers : List UInt32) :
    (numbers.foldl volume.after session).device.medium = session.device.medium := by
  induction numbers generalizing session with
  | nil => rfl
  | cons number numbers ih =>
      rw [List.foldl_cons, ih]
      exact volume.medium_deviceAfter session.device number

theorem exists_run_links (h : table.Faithful volume session.device) (clusters : List UInt32) :
    ∃ after : Table, (links volume clusters table).run session =
      ((clusters.map (volume.answerOn session.device), after),
        (asked volume session.device table.last clusters).foldl volume.after session) := by
  induction clusters generalizing table session with
  | nil => exact ⟨table, rfl⟩
  | cons cluster clusters ih =>
      obtain ⟨next, hnext, hlast, hrun⟩ := exists_run_link h cluster
      have hmedium : ((table.link volume cluster).run session).2.device.medium =
          session.device.medium := by
        rw [hrun]
        exact medium_foldl_after _ _
      obtain ⟨after, hrest⟩ := ih (hnext.congr hmedium.symm)
      refine ⟨after, ?_⟩
      rw [answerOn_congr hmedium, asked_congr hmedium, hlast, hrun] at hrest
      rw [links, Session.run_bind, hrun]
      dsimp only
      rw [Session.run_bind, hrest, asked, List.foldl_append]
      rfl

theorem run_freshLinks (volume : Volume) (clusters : List UInt32) (session : Session) :
    ((freshLinks volume clusters).run session).1 =
      clusters.map (volume.answerOn session.device) := by
  induction clusters generalizing session with
  | nil => rfl
  | cons cluster clusters ih =>
      obtain ⟨next, -, -, hrun⟩ := exists_run_link (faithful_empty volume session.device) cluster
      have hrest := ih ((empty.link volume cluster).run session).2
      rw [hrun, answerOn_congr (medium_foldl_after session _)] at hrest
      rw [freshLinks, Session.run_bind, hrun]
      exact congrArg (volume.answerOn session.device cluster :: ·) hrest

theorem exists_of_mem_asked {device : Device} {last : Option UInt32} {clusters : List UInt32}
    {number : UInt32} (h : number ∈ asked volume device last clusters) :
    ∃ cluster ∈ clusters, volume.isDataCluster cluster ∧ volume.entrySector cluster = number := by
  induction clusters generalizing last with
  | nil => contradiction
  | cons cluster clusters ih =>
      rcases List.mem_append.mp h with h | h
      · obtain ⟨hasks, hnumber⟩ := List.mem_ite_nil_right.mp h
        exact ⟨cluster, List.mem_cons_self, (Bool.and_eq_true_iff.mp hasks).1,
          (List.mem_singleton.mp hnumber).symm⟩
      · obtain ⟨other, hother, hdata⟩ := ih h
        exact ⟨other, List.mem_cons_of_mem _ hother, hdata⟩

end Table

/-! ## The log of a stream -/

theorem Device.exists_ofStream_of_medium {device : Device} {stream : Stream} {size : Nat}
    (h : device.medium = (ofStream stream size).medium) :
    ∃ other : Stream, device = ofStream other size ∧ other.reportedSize = stream.reportedSize := by
  rcases device with ⟨_, _ | other⟩
  · simp [medium, ofStream] at h
  · obtain ⟨rfl, hother⟩ : _ ∧ _ := by simpa [medium, ofStream] using h
    exact ⟨other, rfl, hother.2.1⟩

theorem Device.readSectors_ofStream {stream : Stream} {size first count : Nat} (hcount : 0 < count)
    (hlast : first + count ≤ stream.reportedSize / size) :
    (ofStream stream size).readSectors first count (count * size) =
      (ofStream stream size).copy first (count * size) := by
  have hrefusal : (ofStream stream size).refusal? (first + count - 1) size = none := by
    have hsector : ¬ first + count - 1 ≥ stream.reportedSize / size := by omega
    exact (if_neg hsector).trans (if_neg fun hne => hne rfl)
  rw [readSectors_ofStream_eq_readRun size rfl, readRun, if_neg (Nat.pos_iff_ne_zero.mp hcount)]
  rw [show (ofStream stream size).sectorSize = size from rfl, hrefusal]

namespace Volume

variable {volume : Volume} {stream : Stream} {size : Nat}

theorem reads_deviceAfter {number : UInt32} (hbytes : 0 < volume.bytesPerSector.toNat)
    (hdvd : size ∣ volume.bytesPerSector.toNat)
    (hnumber : (number.toNat + 1) * volume.bytesPerSector.toNat ≤ stream.reportedSize) :
    (volume.deviceAfter (.ofStream stream size) number).reads =
      (Device.ofStream stream size).reads ++
        [⟨number.toNat * volume.bytesPerSector.toNat, volume.bytesPerSector.toNat⟩] := by
  obtain ⟨ratio, hratio⟩ := hdvd
  have hsize : 0 < size := Nat.pos_of_mul_pos_right (hratio ▸ hbytes)
  have hpos : 0 < 1 * ratio := by
    rw [Nat.one_mul]
    exact Nat.pos_of_mul_pos_left (hratio ▸ hbytes)
  have hlast : number.toNat * ratio + 1 * ratio ≤ stream.reportedSize / size := by
    rw [Nat.le_div_iff_mul_le hsize, ← Nat.add_mul, Nat.mul_assoc, Nat.mul_comm ratio, ← hratio]
    exact hnumber
  have hlength : size * ratio = 1 * ratio * size := by rw [Nat.one_mul, Nat.mul_comm]
  rw [deviceAfter, show (Device.ofStream stream size).sectorSize = size from rfl, hratio,
    Nat.mul_div_cancel_left ratio hsize, hlength, Device.readSectors_ofStream hpos hlast,
    Device.reads_copy_ofStream, Nat.mul_assoc, Nat.one_mul]

theorem reads_foldl_deviceAfter {numbers : List UInt32} (hbytes : 0 < volume.bytesPerSector.toNat)
    (hdvd : size ∣ volume.bytesPerSector.toNat)
    (hnumbers : ∀ number ∈ numbers,
      (number.toNat + 1) * volume.bytesPerSector.toNat ≤ stream.reportedSize) :
    (numbers.foldl volume.deviceAfter (.ofStream stream size)).reads =
      (Device.ofStream stream size).reads ++ numbers.map fun number =>
        ⟨number.toNat * volume.bytesPerSector.toNat, volume.bytesPerSector.toNat⟩ := by
  induction numbers generalizing stream with
  | nil => exact (List.append_nil _).symm
  | cons number numbers ih =>
      obtain ⟨hnumber, hrest⟩ := List.forall_mem_cons.mp hnumbers
      obtain ⟨other, hother, hreported⟩ :=
        Device.exists_ofStream_of_medium (volume.medium_deviceAfter (.ofStream stream size) number)
      have hread := reads_deviceAfter hbytes hdvd hnumber
      rw [List.foldl_cons]
      rw [hother] at hread ⊢
      rw [ih (by rwa [hreported]), hread, List.append_assoc]
      rfl

end Volume

/-! ## The kept sector is not seen -/

namespace Table

/-- On an unchanging device, one table answers about clusters as new tables do, in a session of
their own. The device, whatever it is, is asked just for the sector of each data cluster that is not
the one read last with success, which shows also in the log of a stream that has the whole table;
and an answer that fails leaves what the table keeps. -/
theorem links_unseen {volume : Volume} (h : volume.Accepted) (session : Session)
    (clusters : List UInt32) :
    let run := (links volume clusters .empty).run session
    let numbers := asked volume session.device none clusters
    (∀ other : Session, other.device.medium = session.device.medium →
      ((freshLinks volume clusters).run other).1 = run.1.1) ∧
    run.2 = ⟨numbers.foldl volume.deviceAfter session.device,
      session.requests ++ (numbers.map (volume.sectorRead session.device.sectorSize)).toArray,
      session.journal⟩ ∧
    (∀ stream size, session.device = .ofStream stream size →
      size ∣ volume.bytesPerSector.toNat →
      volume.dataStart.toNat * volume.bytesPerSector.toNat ≤ stream.reportedSize →
      run.2.device.reads = session.device.reads ++ numbers.map fun number =>
        ⟨number.toNat * volume.bytesPerSector.toNat, volume.bytesPerSector.toNat⟩) ∧
    ∀ (table : Table) (cluster : UInt32) (later : Session) (error : Error),
      ((table.link volume cluster).run later).1.1 = .error error →
        ((table.link volume cluster).run later).1.2 = table := by
  intro run numbers
  obtain ⟨after, hrun⟩ := exists_run_links (faithful_empty volume session.device) clusters
  have hlater : run.2 = _ := (congrArg Prod.snd hrun).trans (volume.foldl_after session numbers)
  refine ⟨fun other hother => ?_, hlater, fun stream size hstream hdvd hreported => ?_,
    fun _ _ _ _ => link_failed⟩
  · rw [run_freshLinks, answerOn_congr hother]
    exact (congrArg (·.1.1) hrun).symm
  · have hnumbers : ∀ number ∈ numbers,
        (number.toNat + 1) * volume.bytesPerSector.toNat ≤ stream.reportedSize := by
      intro number hnumber
      obtain ⟨cluster, -, hdata, rfl⟩ := exists_of_mem_asked hnumber
      have hsector := (h.entrySector_spec hdata).2
      have htable := h.tableStart_add_le
      exact (Nat.mul_le_mul_right _ (by omega)).trans hreported
    rw [hlater]
    dsimp only
    rw [hstream]
    exact Volume.reads_foldl_deviceAfter (Nat.lt_of_lt_of_le (by decide) h.le_bytesPerSector)
      hdvd hnumbers

end Table

namespace Specimen

def broad : Volume := { volume with sectorsPerTable := 2, totalSectors := 200 }

def halfReadable : Device :=
  .ofStream (.ofImage image image.size (.ofDamage [⟨1536, 2048⟩])) 256

/-- A failed read of another sector, twice, does not cost the one that is kept. -/
theorem links_unseen_broad :
    let clusters := [2, 3, 1, 130, 3, 130, 2]
    let run := (Table.links broad clusters .empty).run (.start halfReadable)
    broad.Accepted ∧
      ((Table.freshLinks broad clusters).run (.start halfReadable)).1 = run.1.1 ∧
      run.2.requests = #[⟨4, 2, 512⟩, ⟨6, 2, 512⟩, ⟨6, 2, 512⟩] ∧
      run.2.device.reads = [⟨1024, 512⟩, ⟨1536, 512⟩, ⟨1536, 512⟩] ∧
      ((run.1.2.link broad 130).run run.2).1.2 = run.1.2 ∧ run.1.2.last = some 2 := by
  intro clusters run
  have haccepted : broad.Accepted := ⟨by decide, by decide, by decide, by decide, by decide⟩
  obtain ⟨hfresh, hafter, hreads, hfailed⟩ :=
    Table.links_unseen haccepted (.start halfReadable) clusters
  refine ⟨haccepted, hfresh _ rfl, ?_, ?_, hfailed run.1.2 130 run.2 (.io 6 .medium) ?_, ?_⟩
  · exact (congrArg Session.requests hafter).trans (by decide +kernel)
  · exact (hreads _ 256 rfl (by decide) (by decide)).trans (by decide +kernel)
  · exact eq_error_of_map (f := fun _ => ()) (by decide +kernel)
  · decide +kernel

end Specimen

end Fat32
