import Fat32.Proofs.ReadLog
import Fat32.Proofs.Specimen
import Fat32.Proofs.Volume.Mounting
import Fat32.Tree.Survey
import Fat32.Volume.Lookup

/-!
# Where reads go

Mounting reads the start of a stream and at most the sector of the hints. From then on every read
is of one whole sector of the active table or of one whole data cluster, so nothing outside of the
volume is ever asked for. Nothing is assumed of the stream: its contents and faults may change
from one call to the next.
-/

namespace Fat32

namespace Volume

variable (volume : Volume) (read : StreamRead)

def TableRead : Prop :=
  ∃ sector, volume.tableStart.toNat ≤ sector ∧
    sector < volume.tableStart.toNat + volume.sectorsPerTable.toNat ∧
    read = ⟨sector * volume.bytesPerSector.toNat, volume.bytesPerSector.toNat⟩

def ClusterRead : Prop :=
  ∃ cluster, volume.isDataCluster cluster ∧
    read = ⟨(volume.clusterSector cluster).toNat * volume.bytesPerSector.toNat, volume.clusterSize⟩

/-- The read of the sector of the hints, which is not the first and lies before the tables. -/
def HintRead : Prop :=
  0 < volume.hintSector.toNat ∧ volume.hintSector.toNat < volume.reservedSectors.toNat ∧
    read = ⟨volume.hintSector.toNat * volume.bytesPerSector.toNat, volume.bytesPerSector.toNat⟩

def Spans : Prop :=
  read.offset + read.count ≤ volume.totalSectors.toNat * volume.bytesPerSector.toNat

end Volume

def Volume.CallRead (volume : Volume) (read : StreamRead) : Prop :=
  volume.TableRead read ∨ volume.ClusterRead read

section

variable {volume : Volume} {size : Nat}

/-! ## Regions of reads -/

theorem Volume.spans_of_le {sector count : Nat} (h : sector + count ≤ volume.totalSectors.toNat) :
    volume.Spans ⟨sector * volume.bytesPerSector.toNat, count * volume.bytesPerSector.toNat⟩ := by
  rw [Spans, ← Nat.add_mul]
  exact Nat.mul_le_mul_right _ h

namespace Volume.Accepted

variable (h : volume.Accepted) {read : StreamRead}

include h

theorem spans_sector {sector : Nat} (hsector : sector < volume.dataStart.toNat) :
    volume.Spans ⟨sector * volume.bytesPerSector.toNat, volume.bytesPerSector.toNat⟩ := by
  have hdata := h.dataStart_lt
  have hspans := spans_of_le (show sector + 1 ≤ volume.totalSectors.toNat by omega)
  rwa [Nat.one_mul] at hspans

theorem spans_callRead (hread : volume.CallRead read) : volume.Spans read := by
  rcases hread with ⟨sector, -, hsector, rfl⟩ | ⟨cluster, hcluster, rfl⟩
  · exact h.spans_sector (Nat.lt_of_lt_of_le hsector h.tableStart_add_le)
  · rw [clusterSize, Nat.mul_comm volume.bytesPerSector.toNat volume.sectorsPerCluster.toNat]
    exact spans_of_le (h.clusterSector_spec hcluster).2

theorem spans_hintRead (hread : volume.HintRead read) : volume.Spans read := by
  obtain ⟨-, hsector, rfl⟩ := hread
  refine h.spans_sector ?_
  rw [h.toNat_dataStart]
  omega

theorem tableRead_entrySector {cluster : UInt32} (hcluster : volume.isDataCluster cluster) :
    volume.TableRead ⟨(volume.entrySector cluster).toNat * volume.bytesPerSector.toNat,
      volume.bytesPerSector.toNat⟩ := by
  obtain ⟨hlow, hhigh⟩ := h.entrySector_spec hcluster
  exact ⟨_, hlow, hhigh, rfl⟩

end Volume.Accepted

/-! ## Calls -/

theorem Volume.readsOnly_readSectors {allowed : StreamRead → Prop}
    (hdvd : size ∣ volume.bytesPerSector.toNat) {sector : UInt32} {count : Nat}
    (h : allowed ⟨sector.toNat * volume.bytesPerSector.toNat,
      count * volume.bytesPerSector.toNat⟩) (length : Nat) :
    ReadsOnly size allowed (volume.readSectors sector count length).run := by
  refine .get_bind fun session hsize => ?_
  dsimp only
  rw [hsize]
  refine Session.readsOnly_readSectors ?_ length
  rwa [Nat.mul_assoc, Nat.mul_assoc, Nat.div_mul_cancel hdvd]

theorem Volume.readsOnly_readClusterInto (hdvd : size ∣ volume.bytesPerSector.toNat)
    (cluster : UInt32) (length : Nat) :
    ReadsOnly size volume.CallRead (volume.readClusterInto cluster length).run := by
  rw [readClusterInto]
  split
  case isTrue hcluster =>
    refine readsOnly_readSectors hdvd (.inr ⟨cluster, hcluster, ?_⟩) length
    rw [clusterSize, Nat.mul_comm volume.bytesPerSector.toNat volume.sectorsPerCluster.toNat]
  case isFalse => exact .throw _

section

variable (h : volume.Accepted) (hdvd : size ∣ volume.bytesPerSector.toNat)

include h hdvd

theorem Table.readsOnly_link (table : Table) (cluster : UInt32) :
    ReadsOnly size volume.CallRead (table.link volume cluster) := by
  rw [link]
  split
  case isTrue hcluster =>
    have hread := h.tableRead_entrySector hcluster
    have hsector : ReadsOnly size volume.CallRead
        (table.sector volume (volume.entrySector cluster)) := by
      rw [sector]
      cases table.kept? (volume.entrySector cluster) with
      | some bytes => exact .pure _
      | none =>
          refine .bind (Volume.readsOnly_readSectors hdvd ?_ _) fun result => ?_
          · rw [Nat.one_mul]
            exact .inl hread
          · cases result <;> exact .pure _
    exact hsector.bind fun _ => .pure _
  case isFalse => exact .pure _

namespace Chain

theorem readsOnly_advance (chain : Chain) :
    ReadsOnly size volume.CallRead (chain.advance volume) := by
  rw [advance]
  cases chain.refused with
  | some error => exact .pure _
  | none =>
      cases chain.due with
      | none => exact .pure _
      | some current =>
          dsimp only
          split
          · exact .pure _
          · refine (Table.readsOnly_link h hdvd chain.table current).bind fun (link, table) => ?_
            dsimp only
            cases link.bind (follow volume chain.start current) with
            | error error => exact .pure _
            | ok next => exact (ReadsOnly.report _).bind fun _ => .pure _

theorem readsOnly_forEach {σ : Type} {visit : Except Error UInt32 → σ → Access (ForInStep σ)}
    (hvisit : ∀ item state, ReadsOnly size volume.CallRead (visit item state).run)
    (limit : Nat) (chain : Chain) (state : σ) :
    ReadsOnly size volume.CallRead (chain.forEach volume visit limit state).run := by
  induction limit generalizing chain state with
  | zero => exact .access_pure state
  | succ limit ih =>
      refine (readsOnly_advance h hdvd chain).lift_bind fun (item?, next) => ?_
      cases item? with
      | none => exact .access_pure state
      | some item =>
          refine (hvisit item state).access_bind fun step => ?_
          cases step with
          | done state => exact .access_pure state
          | yield state => exact ih next state

end Chain

namespace Volume

theorem readsOnly_clusterChain (table : Table) (start : UInt32) :
    ReadsOnly size volume.CallRead (table.clusterChain volume start).run :=
  (Chain.readsOnly_forEach h hdvd (fun _ _ => .of_except fun _ => .access_pure _) _ _ _).access_bind
    fun _ => .access_pure _

theorem readsOnly_readDirectory (deadline : Option Nat) (path : String) (cluster : UInt32) :
    ReadsOnly size volume.CallRead (volume.readDirectory deadline path cluster).run := by
  refine (Chain.readsOnly_forEach h hdvd (fun item state => ?_) _ _ _).access_bind
    fun _ => (ReadsOnly.report _).lift_bind fun _ => .access_pure _
  refine (Session.readsOnly_checkDeadline deadline path).access_bind fun _ => .of_except
    fun cluster => ?_
  exact (readsOnly_readClusterInto hdvd cluster _).access_bind
    fun _ => (ReadsOnly.report _).lift_bind fun _ => .access_pure _

theorem readsOnly_descend (here : String × Entry) (name : String) :
    ReadsOnly size volume.CallRead (volume.descend here name).run := by
  obtain ⟨parent, entry⟩ := here
  simp only [descend]
  split
  · exact .throw _
  · refine (readsOnly_readDirectory h hdvd none "" entry.firstCluster).access_bind
      fun entries => ?_
    cases select? entries name with
    | none => exact .throw _
    | some found => exact .access_pure _

theorem readsOnly_lookup (path : String) :
    ReadsOnly size volume.CallRead (volume.lookup path).run := by
  have hfold (names : List String) (here : String × Entry) :
      ReadsOnly size volume.CallRead (names.foldlM volume.descend here).run := by
    induction names generalizing here with
    | nil => exact .access_pure here
    | cons name names ih =>
        rw [List.foldlM_cons]
        exact (readsOnly_descend h hdvd here name).access_bind ih
  exact (hfold _ _).access_bind fun _ => .access_pure _

theorem readsOnly_listDir (path : String) :
    ReadsOnly size volume.CallRead (volume.listDir path).run := by
  refine (readsOnly_lookup h hdvd path).access_bind fun entry => ?_
  split
  · exact .throw _
  · exact (readsOnly_readDirectory h hdvd none "" entry.firstCluster).access_bind
      fun _ => .access_pure _

theorem readsOnly_fileContent (path : String) :
    ReadsOnly size volume.CallRead (volume.fileContent path).run := by
  refine (readsOnly_lookup h hdvd path).access_bind fun entry => ?_
  split
  · exact .throw _
  · rw [readContent]
    split
    · exact .access_pure _
    · refine (Chain.readsOnly_forEach h hdvd (fun item state => .of_except fun cluster => ?_)
        _ _ _).access_bind fun (last, clusters) => ?_
      · exact (readsOnly_readClusterInto hdvd cluster _).access_bind fun _ => .access_pure _
      · dsimp only
        split
        · exact .throw _
        · exact .access_pure _

end Volume

namespace Survey

variable (options : Options)

theorem readsOnly_step (task : Task) (rest : List Task) (progress : Progress) :
    ReadsOnly size volume.CallRead (step volume options task rest progress).run := by
  have hvisit : ReadsOnly size volume.CallRead
      (visit volume options progress.reached task) := by
    rw [visit]
    cases task.refusal? options with
    | some error => exact .pure _
    | none =>
        dsimp only
        split
        · exact (ReadsOnly.report _).bind fun _ => .pure _
        · exact (Volume.readsOnly_readDirectory h hdvd options.deadline task.path
            task.cluster).bind fun _ => .pure _
  refine hvisit.lift_bind fun (entries, reached) => ?_
  cases entries with
  | ok entries => exact (ReadsOnly.report _).lift_bind fun _ => .access_pure _
  | error error =>
      dsimp only
      split
      · exact (ReadsOnly.report _).lift_bind fun _ => .access_pure _
      · exact .throw _

theorem readsOnly_run (limit : Nat) (progress : Progress) :
    ReadsOnly size volume.CallRead (run volume options limit progress).run := by
  induction limit generalizing progress with
  | zero => exact .access_pure progress
  | succ limit ih =>
      rw [run]
      cases progress.agenda with
      | nil => exact .access_pure progress
      | cons task rest => exact (readsOnly_step h hdvd options task rest progress).access_bind ih

end Survey

theorem Volume.readsOnly_survey (options : Survey.Options) (cluster : UInt32) :
    ReadsOnly size volume.CallRead (volume.survey options cluster).run :=
  (Survey.readsOnly_run h hdvd options _ _).access_bind fun _ => .access_pure _

end

/-! ## Turns -/

/-- A call about a mounted volume, also on a table or chain that was used before. -/
inductive Call
  | link (table : Table) (cluster : UInt32)
  | next (chain : Chain)
  | clusterChain (table : Table) (start : UInt32)
  | readCluster (cluster : UInt32) (length : Nat)
  | readDir (cluster : UInt32)
  | lookup (path : String)
  | listDir (path : String)
  | fileContent (path : String)
  | survey (options : Survey.Options) (cluster : UInt32)

def Call.run (volume : Volume) : Call → StateM Session Unit
  | .link table cluster => do let _ ← table.link volume cluster
  | .next chain => do let _ ← chain.advance volume
  | .clusterChain table start => do let _ ← (table.clusterChain volume start).run
  | .readCluster cluster length => do let _ ← (volume.readClusterInto cluster length).run
  | .readDir cluster => do let _ ← (volume.readDir cluster).run
  | .lookup path => do let _ ← (volume.lookup path).run
  | .listDir path => do let _ ← (volume.listDir path).run
  | .fileContent path => do let _ ← (volume.fileContent path).run
  | .survey options cluster => do let _ ← (volume.survey options cluster).run

def Device.change (image : Image) (damage : Faults) : Device → Device
  | ⟨size, .memory image⟩ => ⟨size, .memory image⟩
  | ⟨size, .stream stream⟩ => ⟨size, .stream { stream with image, damage }⟩

/-- What happens to a session: a call, or a change of the stream between two calls. -/
inductive Turn
  | ask (call : Call)
  | change (image : Image) (damage : Faults)

def Turn.run (volume : Volume) : Turn → StateM Session Unit
  | .ask call => call.run volume
  | .change image damage =>
      modify fun session => { session with device := session.device.change image damage }

def Turn.runAll (volume : Volume) : List Turn → StateM Session Unit
  | [] => pure ()
  | turn :: turns => do turn.run volume; runAll volume turns

section

variable (h : volume.Accepted) (hdvd : size ∣ volume.bytesPerSector.toNat)

include h hdvd

theorem Call.readsOnly_run (call : Call) : ReadsOnly size volume.CallRead (call.run volume) := by
  cases call with
  | link table cluster => exact (Table.readsOnly_link h hdvd table cluster).bind fun _ => .pure _
  | next chain => exact (Chain.readsOnly_advance h hdvd chain).bind fun _ => .pure _
  | clusterChain table start =>
      exact (Volume.readsOnly_clusterChain h hdvd table start).bind fun _ => .pure _
  | readCluster cluster length =>
      exact (Volume.readsOnly_readClusterInto hdvd cluster length).bind fun _ => .pure _
  | readDir cluster =>
      exact (Volume.readsOnly_readDirectory h hdvd none "" cluster).bind fun _ => .pure _
  | lookup path => exact (Volume.readsOnly_lookup h hdvd path).bind fun _ => .pure _
  | listDir path => exact (Volume.readsOnly_listDir h hdvd path).bind fun _ => .pure _
  | fileContent path => exact (Volume.readsOnly_fileContent h hdvd path).bind fun _ => .pure _
  | survey options cluster =>
      exact (Volume.readsOnly_survey h hdvd options cluster).bind fun _ => .pure _

theorem Turn.readsOnly_run (turn : Turn) : ReadsOnly size volume.CallRead (turn.run volume) := by
  cases turn with
  | ask call => exact call.readsOnly_run h hdvd
  | change image damage =>
      rintro ⟨⟨_, _ | stream⟩, requests, journal⟩ hsize <;>
        exact ⟨hsize, [], (List.append_nil _).symm, List.forall_mem_nil _⟩

theorem Turn.readsOnly_runAll (turns : List Turn) :
    ReadsOnly size volume.CallRead (Turn.runAll volume turns) := by
  induction turns with
  | nil => exact .pure ()
  | cons turn turns ih => exact (turn.readsOnly_run h hdvd).bind fun _ => ih

end

/-! ## Mounting -/

theorem Device.length_readStart {size : Nat} (hpower : isPowerOfTwo size) :
    (BootRecord.length + size - 1) / size * size = max BootRecord.length size := by
  have hpos := pos_of_isPowerOfTwo hpower
  have hcover := le_roundedUp hpos BootRecord.length
  obtain ⟨k, hk⟩ := isPowerOfTwo_iff.mp hpower
  rcases Nat.le_total size BootRecord.length with hle | hle
  · have hdvd : size ∣ BootRecord.length := by
      rw [hk] at hle ⊢
      have hexponent : k ≤ 9 := (Nat.pow_le_pow_iff_right (by decide : 1 < 2)).mp hle
      exact Nat.pow_dvd_pow 2 hexponent
    have hwithin := roundedUp_le hpos hdvd (Nat.le_refl _)
    omega
  · have hone : (BootRecord.length + size - 1) / size = 1 :=
      Nat.div_eq_of_lt_le (by simp only [BootRecord.length]; omega)
        (by simp only [BootRecord.length] at *; omega)
    rw [hone, Nat.one_mul, Nat.max_eq_right hle]

theorem Volume.device_readHints (hsector : ¬ (volume.hintSector = 0 ∨
    volume.hintSector ≥ volume.reservedSectors)) (session : Session) :
    (volume.readHints.run session).2.device =
      ((volume.readSectors volume.hintSector.toUInt32 1 volume.bytesPerSector.toNat).perform
        session).2.device := by
  simp only [readHints, if_neg hsector, Session.run_bind]
  change _ = (((volume.readSectors volume.hintSector.toUInt32 1
    volume.bytesPerSector.toNat).run).run session).2.device
  generalize ((volume.readSectors volume.hintSector.toUInt32 1
    volume.bytesPerSector.toNat).run).run session = read
  rcases read with ⟨error | bytes, later⟩
  · rfl
  · dsimp only
    cases Hints.ofBytes? bytes <;> rfl

theorem Volume.reads_readHints (hdvd : size ∣ volume.bytesPerSector.toNat) (session : Session)
    (hsize : session.device.sectorSize = size) :
    ∃ hint, (volume.readHints.run session).2.device.reads = session.device.reads ++ hint ∧
      hint.length ≤ 1 ∧ ∀ read ∈ hint, volume.HintRead read := by
  by_cases hsector : volume.hintSector = 0 ∨ volume.hintSector ≥ volume.reservedSectors
  · rw [readHints, if_pos hsector]
    exact ⟨[], (List.append_nil _).symm, Nat.zero_le 1, List.forall_mem_nil _⟩
  · obtain ⟨hzero, hreserved⟩ := not_or.mp hsector
    obtain ⟨hint, hreads, hcases⟩ := session.device.reads_readSectors
      (volume.hintSector.toUInt32.toNat * (volume.bytesPerSector.toNat / session.device.sectorSize))
      (1 * (volume.bytesPerSector.toNat / session.device.sectorSize)) volume.bytesPerSector.toNat
    rw [device_readHints hsector, readSectors, Access.perform_get_bind, Session.perform_readSectors]
    refine ⟨hint, hreads, ?_⟩
    rw [hsize, UInt16.toNat_toUInt32, Nat.mul_assoc, Nat.mul_assoc, Nat.div_mul_cancel hdvd,
      Nat.one_mul] at hcases
    rcases hcases with rfl | rfl
    · exact ⟨Nat.zero_le 1, List.forall_mem_nil _⟩
    · refine ⟨Nat.le_refl 1, List.forall_mem_singleton.mpr ⟨?_, ?_, rfl⟩⟩
      · exact Nat.pos_of_ne_zero fun h => hzero (UInt16.toNat_inj.mp h)
      · exact UInt16.lt_iff_toNat_lt.mp (UInt16.not_le.mp hreserved)

theorem Device.reads_readStart {stream : Stream} {size : Nat} (hpower : isPowerOfTwo size)
    {bytes : Bytes} (h : (ofStream stream size).readStart.1.result = .ok bytes) :
    (ofStream stream size).readStart.2.reads =
      (ofStream stream size).reads ++ [⟨0, max BootRecord.length size⟩] := by
  have hlength := length_readStart hpower
  have hpos : 0 < BootRecord.length := by decide
  rcases reads_readSectors_ofStream stream size 0 ((BootRecord.length + size - 1) / size)
    ((BootRecord.length + size - 1) / size * size) with hread | ⟨-, hzero | ⟨error, herror⟩⟩
  · rw [Nat.zero_mul] at hread
    rw [← hlength]
    exact hread
  · rw [hzero, Nat.zero_mul] at hlength
    omega
  · have hresult : (ofStream stream size).readStart.1.result = .error error := by
      rw [Transfer.result, readStart]
      exact congrArg _ herror
    rw [hresult] at h
    contradiction

theorem Volume.Accepted.spans_readStart (h : volume.Accepted)
    (hle : size ≤ volume.bytesPerSector.toNat) :
    volume.Spans ⟨0, max BootRecord.length size⟩ := by
  have hlength : BootRecord.length ≤ volume.bytesPerSector.toNat := h.le_bytesPerSector
  have htotal : 0 < volume.totalSectors.toNat := Nat.zero_lt_of_lt h.dataStart_lt
  have hsector := Nat.le_mul_of_pos_left volume.bytesPerSector.toNat htotal
  rw [Spans]
  dsimp only
  omega

end

/-- Mounting reads the start of a stream and at most the sector of the hints. Whatever is done
about the volume then, and however the stream changes between two calls, every further read is of
one sector of the active table or of one data cluster. None of all these reads leaves the volume. -/
theorem mount_reads_only {stream : Stream} {sectorSize : Nat} {requests : Array DeviceRead}
    {journal : Array Event} {mounted : Mounted} {later : Session}
    (h : mount.perform ⟨.ofStream stream sectorSize, requests, journal⟩ = (.ok mounted, later)) :
    let volume := mounted.volume
    let start : StreamRead := ⟨0, max BootRecord.length sectorSize⟩
    ∃ hint, later.device.reads = stream.reads.toList ++ start :: hint ∧
      hint.length ≤ 1 ∧ (∀ read ∈ hint, volume.HintRead read) ∧
      (∀ read ∈ start :: hint, volume.Spans read) ∧
      ∀ turns, ∃ more,
        ((Turn.runAll volume turns).run later).2.device.reads = later.device.reads ++ more ∧
        ∀ read ∈ more, volume.CallRead read ∧ volume.Spans read := by
  have hlater : later.device.sectorSize = sectorSize := by
    have hmedium := medium_mount ⟨.ofStream stream sectorSize, requests, journal⟩
    rw [h] at hmedium
    exact Device.sectorSize_eq_of_medium hmedium
  obtain ⟨hpower, hle, ⟨bytes, hbytes, hparse⟩, between, hbetween, rfl⟩ := of_mount h
  have haccepted := Volume.accepted_of_parse hparse
  have hdvd := haccepted.dvd_bytesPerSector hpower hle
  have hstart : between.device.reads =
      stream.reads.toList ++ [⟨0, max BootRecord.length sectorSize⟩] := by
    rw [hbetween]
    exact Device.reads_readStart hpower hbytes
  have hsize : between.device.sectorSize = sectorSize := by
    rw [hbetween]
    exact Device.sectorSize_eq_of_medium (Device.readSectors_medium _ _ _ _).2
  obtain ⟨hint, hreads, hlength, hhint⟩ := Volume.reads_readHints hdvd between hsize
  refine ⟨hint, ?_, hlength, hhint, ?_, fun turns => ?_⟩
  · rw [hreads, hstart, List.append_assoc]
    rfl
  · exact List.forall_mem_cons.mpr ⟨haccepted.spans_readStart hle,
      fun read hread => haccepted.spans_hintRead (hhint read hread)⟩
  · obtain ⟨-, more, hmore, hcalls⟩ := Turn.readsOnly_runAll haccepted hdvd turns _ hlater
    exact ⟨more, hmore, fun read hread =>
      ⟨hcalls read hread, haccepted.spans_callRead (hcalls read hread)⟩⟩

/-- A directory of the specimen is read, its table is damaged, and a path is looked up in vain. -/
theorem Specimen.mount_reads_only_specimen :
    let session : Session := .start (.ofStream (.whole image) 256)
    let turns : List Turn :=
      [.ask (.readDir 2), .change hintless (.ofDamage [⟨1024, 1025⟩]), .ask (.lookup "A")]
    let reads : List StreamRead := [⟨1024, 512⟩, ⟨1536, 512⟩, ⟨1024, 512⟩]
    ∃ later, mount.perform session = (.ok ⟨volume, some ⟨some 3, some 6⟩⟩, later) ∧
      later.device.reads = [⟨0, 512⟩, ⟨512, 512⟩] ∧
      ((Turn.runAll volume turns).run later).2.device.reads = later.device.reads ++ reads ∧
      ∀ read ∈ reads, volume.CallRead read ∧ volume.Spans read := by
  intro session turns reads
  have hok : (mount.perform session).1 = .ok ⟨volume, some ⟨some 3, some 6⟩⟩ :=
    eq_ok_of_toOption (by decide +kernel)
  have hstart : (mount.perform session).2.device.reads = [⟨0, 512⟩, ⟨512, 512⟩] := by
    decide +kernel
  have hreads : ((Turn.runAll volume turns).run (mount.perform session).2).2.device.reads =
      (mount.perform session).2.device.reads ++ reads := by
    decide +kernel
  obtain ⟨later, hlater⟩ : ∃ later, (mount.perform session).2 = later := ⟨_, rfl⟩
  rw [hlater] at hstart hreads
  have hmount : mount.perform session = (.ok ⟨volume, some ⟨some 3, some 6⟩⟩, later) :=
    Prod.ext hok hlater
  obtain ⟨hint, -, -, -, -, hturns⟩ := mount_reads_only hmount
  obtain ⟨more, hmore, hcalls⟩ := hturns turns
  dsimp only at hmore hcalls
  have hsame := List.append_cancel_left (hreads.symm.trans hmore)
  rw [← hsame] at hcalls
  exact ⟨later, hmount, hstart, hreads, hcalls⟩

end Fat32
