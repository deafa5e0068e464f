import Fat32.Proofs.Performing
import Fat32.Proofs.Transfers
import Fat32.Volume.Sectors

/-!
# Unchanging media

What a device serves depends on its medium alone, which is the device without its memory of
reads. A computation that `medium.Gives` a value has that value in every session over the
medium, whatever was read or reported before, so such computations can be taken one by one and
their values put together.
-/

namespace Fat32

namespace Device

/-- The device as if nothing had been read from it. -/
def medium : Device → Device
  | ⟨size, .memory image⟩ => ⟨size, .memory image⟩
  | ⟨size, .stream stream⟩ => ⟨size, .stream { stream with reads := #[] }⟩

@[simp] theorem sectorSize_medium (device : Device) :
    device.medium.sectorSize = device.sectorSize := by
  rcases device with ⟨size, image | stream⟩ <;> rfl

theorem sectorSize_eq_of_medium {device other : Device} (h : device.medium = other.medium) :
    device.sectorSize = other.sectorSize := by
  rw [← sectorSize_medium, h, sectorSize_medium]

theorem eq_ofImage_of_medium {device : Device} {image : Image} {size : Nat}
    (h : device.medium = ofImage image size) : device = ofImage image size := by
  rcases device with ⟨_, _ | _⟩
  · exact h
  · simp [medium, ofImage] at h

private theorem refusal?_stream (size : Nat) (stream other : Stream) (sector length : Nat)
    (h : stream.reportedSize = other.reportedSize) :
    (Device.mk size (.stream stream)).refusal? sector length =
      (Device.mk size (.stream other)).refusal? sector length := by
  simp [refusal?, sectorCount, byteCount, h]

private theorem copy_stream (size : Nat) (stream : Stream) (sector length : Nat) :
    (copy ⟨size, .stream stream⟩ sector length).1 =
        (copy ⟨size, .stream { stream with reads := #[] }⟩ sector length).1 ∧
      (copy ⟨size, .stream stream⟩ sector length).2.medium =
        medium ⟨size, .stream stream⟩ := by
  rcases stream with ⟨image, reportedSize, damage, reads⟩
  have hfault (reads' : Array StreamRead) :
      (Stream.mk image reportedSize damage reads').fault? (sector * size) length =
        (Stream.mk image reportedSize damage reads).fault? (sector * size) length := rfl
  simp only [copy, Stream.read, hfault (reads.push _), hfault (#[].push _)]
  cases (Stream.mk image reportedSize damage reads).fault? (sector * size) length <;>
    exact ⟨rfl, rfl⟩

private theorem readRun_stream (size : Nat) (stream : Stream) (first count : Nat) :
    (readRun ⟨size, .stream stream⟩ first count).1 =
        (readRun ⟨size, .stream { stream with reads := #[] }⟩ first count).1 ∧
      (readRun ⟨size, .stream stream⟩ first count).2.medium =
        medium ⟨size, .stream stream⟩ := by
  have hrefusal := refusal?_stream size stream { stream with reads := #[] }
    (first + count - 1) size rfl
  by_cases hcount : count = 0
  · simp [readRun, medium, hcount]
  · simp only [readRun, if_neg hcount, ← hrefusal]
    cases refusal? ⟨size, .stream stream⟩ (first + count - 1) size with
    | some error => exact ⟨rfl, rfl⟩
    | none => exact copy_stream size stream first (count * size)

theorem readSectors_medium (device : Device) (first count length : Nat) :
    (device.readSectors first count length).1 =
        (device.medium.readSectors first count length).1 ∧
      (device.readSectors first count length).2.medium = device.medium := by
  by_cases hlength : length = count * device.sectorSize
  · rcases device with ⟨size, image | stream⟩
    · exact ⟨rfl, congrArg (·.2.medium) (readSectors_ofImage image size hlength first)⟩
    · have hrun (stream : Stream) : readSectors ⟨size, .stream stream⟩ first count length =
          readRun ⟨size, .stream stream⟩ first count :=
        readSectors_ofStream_eq_readRun size hlength first stream
      rw [medium, hrun, hrun]
      exact readRun_stream size stream first count
  · rw [readSectors_of_length_ne device first hlength,
      readSectors_of_length_ne device.medium first (by rwa [sectorSize_medium])]
    exact ⟨rfl, rfl⟩

end Device

def Transfer.result (transfer : Transfer) : Except Error Bytes :=
  transfer.outcome.map fun () => transfer.copied

/-! ## Computations settled by the medium -/

/-- In every session over the medium, the computation has the value and keeps the medium. -/
def Device.Gives {α : Type} (medium : Device) (action : StateM Session α) (value : α) : Prop :=
  ∀ session : Session, session.device.medium = medium →
    (action.run session).1 = value ∧ (action.run session).2.device.medium = medium

namespace Device.Gives

variable {α β : Type} {medium : Device}

theorem pure (value : α) : medium.Gives (Pure.pure value) value :=
  fun _ h => ⟨rfl, h⟩

theorem bind {action : StateM Session α} {next : α → StateM Session β} {a : α} {b : β}
    (haction : medium.Gives action a) (hnext : medium.Gives (next a) b) :
    medium.Gives (action >>= next) b := by
  intro session h
  obtain ⟨hvalue, hmedium⟩ := haction session h
  change ((next (action.run session).1).run (action.run session).2).1 = b ∧
    ((next (action.run session).1).run (action.run session).2).2.device.medium = medium
  rw [hvalue]
  exact hnext _ hmedium

theorem report (events : List Event) : medium.Gives (Session.report events) () :=
  fun _ h => ⟨rfl, h⟩

/-! ### Accesses -/

theorem access_pure (value : α) : medium.Gives (Pure.pure value : Access α).run (.ok value) :=
  .pure _

theorem throw (error : Error) :
    medium.Gives (MonadExcept.throw error : Access α).run (.error error) :=
  .pure _

theorem lift_bind {action : StateM Session α} {next : α → Access β} {a : α}
    {result : Except Error β} (haction : medium.Gives action a)
    (hnext : medium.Gives (next a).run result) :
    medium.Gives (liftM action >>= next : Access β).run result := by
  rw [ExceptT.run_bind]
  apply bind (a := Except.ok a) _ hnext
  intro session hsession
  obtain ⟨hvalue, hmedium⟩ := haction session hsession
  exact ⟨congrArg Except.ok hvalue, hmedium⟩

theorem ok_bind {access : Access α} {next : α → Access β} {a : α} {result : Except Error β}
    (haccess : medium.Gives access.run (.ok a)) (hnext : medium.Gives (next a).run result) :
    medium.Gives (access >>= next).run result := by
  rw [ExceptT.run_bind]
  exact haccess.bind hnext

theorem error_bind {access : Access α} {next : α → Access β} {error : Error}
    (haccess : medium.Gives access.run (.error error)) :
    medium.Gives (access >>= next).run (.error error) := by
  rw [ExceptT.run_bind]
  exact haccess.bind (.pure _)

theorem get_bind {next : Session → Access α} {result : Except Error α}
    (h : ∀ session, session.device.medium = medium → medium.Gives (next session).run result) :
    medium.Gives (get >>= next : Access α).run result :=
  fun session hsession => h session hsession session hsession

theorem access_bind {access : Access α} {next : α → Access β} {first : Except Error α}
    {second : α → Except Error β} (haccess : medium.Gives access.run first)
    (hnext : ∀ a, first = .ok a → medium.Gives (next a).run (second a)) :
    medium.Gives (access >>= next).run (first >>= second) := by
  rw [ExceptT.run_bind]
  cases first with
  | error error => exact haccess.bind (.pure _)
  | ok a => exact haccess.bind (hnext a rfl)

theorem perform {access : Access α} {result : Except Error α} {session : Session}
    (h : session.device.medium.Gives access.run result) :
    (access.perform session).1 = result :=
  (h session rfl).1

end Device.Gives

/-! ## Sectors and clusters -/

theorem Session.perform_readSectors (session : Session) (first count length : Nat) :
    (readSectors first count length).perform session =
      ((session.device.readSectors first count length).1.result,
        ⟨(session.device.readSectors first count length).2,
          session.requests.push ⟨first, count, length⟩, session.journal⟩) := by
  rw [readSectors, Access.perform_modifyGet_bind, Transfer.result]
  dsimp only
  cases (session.device.readSectors first count length).1.outcome <;> rfl

theorem Session.gives_readSectors (medium : Device) (first count length : Nat) :
    medium.Gives (Session.readSectors first count length).run
      (medium.readSectors first count length).1.result := by
  refine Device.Gives.lift_bind (a := (medium.readSectors first count length).1) ?_ ?_
  · intro session h
    obtain ⟨htransfer, hmedium⟩ := session.device.readSectors_medium first count length
    rw [h] at htransfer hmedium
    exact ⟨htransfer, hmedium⟩
  · rcases (medium.readSectors first count length).1 with ⟨error | _, copied⟩
    · exact .throw error
    · exact .access_pure copied

namespace Volume

def sectorsOn (volume : Volume) (device : Device) (sector : UInt32) (count length : Nat) :
    Except Error Bytes :=
  let ratio := volume.bytesPerSector.toNat / device.sectorSize
  (device.readSectors (sector.toNat * ratio) (count * ratio) length).1.result

def clusterOn (volume : Volume) (device : Device) (cluster : UInt32) : Except Error Bytes :=
  if volume.isDataCluster cluster then
    volume.sectorsOn device (volume.clusterSector cluster) volume.sectorsPerCluster.toNat
      volume.clusterSize
  else .error (.invalidCluster cluster)

theorem sectorsOn_medium (volume : Volume) (device : Device) (sector : UInt32)
    (count length : Nat) :
    volume.sectorsOn device.medium sector count length =
      volume.sectorsOn device sector count length := by
  simp only [sectorsOn, Device.sectorSize_medium]
  rw [(device.readSectors_medium _ _ _).1]

theorem clusterOn_medium (volume : Volume) (device : Device) :
    volume.clusterOn device.medium = volume.clusterOn device := by
  funext cluster
  rw [clusterOn, clusterOn, sectorsOn_medium]

theorem gives_readSectors (volume : Volume) (medium : Device) (sector : UInt32)
    (count length : Nat) :
    medium.Gives (volume.readSectors sector count length).run
      (volume.sectorsOn medium sector count length) := by
  intro session h
  have hsize : session.device.sectorSize = medium.sectorSize := by
    rw [← h, Device.sectorSize_medium]
  have hread := Session.gives_readSectors medium
    (sector.toNat * (volume.bytesPerSector.toNat / session.device.sectorSize))
    (count * (volume.bytesPerSector.toNat / session.device.sectorSize)) length session h
  rw [sectorsOn, ← hsize]
  exact hread

theorem gives_readCluster (volume : Volume) (medium : Device) (cluster : UInt32) :
    medium.Gives (volume.readCluster cluster).run (volume.clusterOn medium cluster) := by
  simp only [readCluster, readClusterInto, clusterOn]
  split
  · exact volume.gives_readSectors medium _ _ _
  · exact .throw _

end Volume

end Fat32
