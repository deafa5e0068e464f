import Fat32.Proofs.ReadLog
import Mathlib.Data.List.Forall2

/-!
# Contents

A read that succeeds gives as many bytes as it asks for, so all clusters that can be read hold the
same number of bytes; one that fails names a sector. Several clusters are read one after another,
up to the first that cannot be read.
-/

namespace Fat32

/-! ## Sectors -/

theorem Stream.length_read {stream : Stream} {offset count : Nat} {bytes : Bytes}
    (h : (stream.read offset count).1 = .ok bytes) : bytes.length = count := by
  rcases stream with ⟨image, reportedSize, damage, reads⟩
  simp only [read] at h
  split at h
  · obtain rfl := Except.ok.inj h
    exact image.length_slice offset count
  · contradiction

namespace Device

theorem length_copy {device : Device} {sector length : Nat}
    (h : (device.copy sector length).1.outcome = .ok ()) :
    (device.copy sector length).1.copied.length = length := by
  rcases device with ⟨size, image | stream⟩
  · exact image.length_slice _ _
  · simp only [copy] at h ⊢
    rcases hread : stream.read (sector * size) length with ⟨fault | bytes, later⟩
    · simp [hread, Transfer.refused] at h
    · exact Stream.length_read (congrArg Prod.fst hread)

theorem length_readSectors {device : Device} {first count length : Nat}
    (h : (device.readSectors first count length).1.outcome = .ok ()) :
    (device.readSectors first count length).1.copied.length = length := by
  by_cases hlength : length = count * device.sectorSize
  · rcases device with ⟨size, image | stream⟩
    · rw [show Device.mk size _ = ofImage image size from rfl,
        readSectors_ofImage image size hlength] at h ⊢
      rw [Image.length_slice, hlength]
      split at h
      · next hserved => rw [hserved]
      · contradiction
    · rw [show Device.mk size _ = ofStream stream size from rfl,
        readSectors_ofStream_eq_readRun size hlength, readRun] at h ⊢
      rw [hlength]
      split at h
      · next hcount => simp [hcount]
      · next hcount =>
          rw [if_neg hcount]
          split at h
          · contradiction
          · exact length_copy h
  · rw [readSectors_of_length_ne device first hlength] at h
    contradiction

/-! ### Failed reads -/

theorem io_of_refusal? {device : Device} {sector length : Nat} {error : Error}
    (h : device.refusal? sector length = some error) : ∃ fault, error = .io sector fault := by
  rw [refusal?] at h
  split at h
  · exact ⟨_, (Option.some.inj h).symm⟩
  split at h
  · exact ⟨_, (Option.some.inj h).symm⟩
  · contradiction

theorem io_of_readSectors {device : Device} {first count length : Nat} {error : Error}
    (h : (device.readSectors first count length).1.outcome = .error error) :
    ∃ sector fault, error = .io sector fault := by
  by_cases hlength : length = count * device.sectorSize
  · rcases device with ⟨size, image | stream⟩
    · rw [show Device.mk size _ = ofImage image size from rfl,
        readSectors_ofImage image size hlength] at h
      split at h
      · contradiction
      · exact ⟨_, _, (Except.error.inj h).symm⟩
    · rw [show Device.mk size _ = ofStream stream size from rfl,
        readSectors_ofStream_eq_readRun size hlength, readRun] at h
      split at h
      · contradiction
      split at h
      · next hrefusal =>
          obtain ⟨fault, hfault⟩ := io_of_refusal? hrefusal
          exact ⟨_, fault, (Except.error.inj h).symm.trans hfault⟩
      · obtain ⟨sector, fault, -, -, herror⟩ := fails_of_copy h
        exact ⟨sector, fault, herror⟩
  · rw [readSectors_of_length_ne device first hlength] at h
    exact ⟨first, .bufferSize, (Except.error.inj h).symm⟩

end Device

/-! ## Clusters -/

namespace Volume

variable {volume : Volume} {device : Device} {bytes : Bytes}

theorem length_clusterOn {cluster : UInt32} (h : volume.clusterOn device cluster = .ok bytes) :
    bytes.length = volume.clusterSize := by
  rw [clusterOn] at h
  split at h
  · simp only [sectorsOn, Transfer.result] at h
    generalize hread : device.readSectors _ _ _ = read at h
    cases houtcome : read.1.outcome with
    | error error => simp [houtcome, Except.map] at h
    | ok _ =>
        obtain rfl : read.1.copied = bytes := by simpa [houtcome, Except.map] using h
        rw [← hread] at houtcome ⊢
        exact Device.length_readSectors houtcome
  · contradiction

theorem io_of_sectorsOn {device : Device} {sector : UInt32} {count length : Nat} {error : Error}
    (h : volume.sectorsOn device sector count length = .error error) :
    ∃ sector fault, error = .io sector fault :=
  Device.io_of_readSectors (eq_error_of_map h)

theorem io_of_clusterOn {device : Device} {cluster : UInt32} {error : Error}
    (hdata : volume.isDataCluster cluster) (h : volume.clusterOn device cluster = .error error) :
    ∃ sector fault, error = .io sector fault := by
  rw [clusterOn, if_pos hdata] at h
  exact io_of_sectorsOn h

def contentOf (volume : Volume) (device : Device) (item : Except Error UInt32) :
    Except Error Bytes := do
  volume.clusterOn device (← item)

theorem length_contentOf {item : Except Error UInt32}
    (h : volume.contentOf device item = .ok bytes) : bytes.length = volume.clusterSize := by
  obtain ⟨cluster, rfl, hcluster⟩ := exists_of_bind_eq_ok h
  exact length_clusterOn hcluster

end Volume

/-! ## One after another -/

section

variable {ε α β : Type} {f : α → Except ε β} {items : List α} {values : List β}

theorem forall₂_of_mapM (h : items.mapM f = .ok values) :
    List.Forall₂ (fun item value => f item = .ok value) items values := by
  induction items generalizing values with
  | nil =>
      obtain rfl := Except.ok.inj h
      exact .nil
  | cons item items ih =>
      rw [List.mapM_cons] at h
      obtain ⟨value, hvalue, h⟩ := exists_of_bind_eq_ok h
      obtain ⟨rest, hrest, h⟩ := exists_of_bind_eq_ok h
      obtain rfl := Except.ok.inj h
      exact .cons hvalue (ih hrest)

theorem mapM_eq_error_iff {error : ε} : items.mapM f = .error error ↔
    ∃ before item after values, items = before ++ item :: after ∧
      before.mapM f = .ok values ∧ f item = .error error := by
  constructor
  · intro h
    induction items with
    | nil => contradiction
    | cons item items ih =>
        rw [List.mapM_cons] at h
        cases hitem : f item with
        | error other =>
            obtain rfl : other = error := by simpa [hitem, bind, Except.bind] using h
            exact ⟨[], item, items, [], rfl, rfl, hitem⟩
        | ok value =>
            have hrest : items.mapM f = .error error := by
              cases hrest : items.mapM f with
              | error other => simpa [hitem, hrest, bind, Except.bind] using h
              | ok rest => simp [hitem, hrest, bind, Except.bind, pure, Except.pure] at h
            obtain ⟨before, bad, after, values, rfl, hvalues, hbad⟩ := ih hrest
            refine ⟨item :: before, bad, after, value :: values, rfl, ?_, hbad⟩
            rw [List.mapM_cons, hitem, hvalues]
            rfl
  · rintro ⟨before, item, after, values, rfl, hvalues, hitem⟩
    rw [List.mapM_append, List.mapM_cons, hvalues, hitem]
    rfl

end

theorem Volume.length_flatten_of_mapM {volume : Volume} {device : Device}
    {items : List (Except Error UInt32)} {contents : List Bytes}
    (h : items.mapM (volume.contentOf device) = .ok contents) :
    contents.flatten.length = items.length * volume.clusterSize := by
  have hcontents := forall₂_of_mapM h
  clear h
  induction hcontents with
  | nil => simp
  | cons hcontent _ ih =>
      rw [List.flatten_cons, List.length_append, ih, length_contentOf hcontent, List.length_cons,
        Nat.succ_mul, Nat.add_comm]

end Fat32
