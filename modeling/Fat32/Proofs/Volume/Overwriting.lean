import Fat32.Proofs.Cluster.Resolution
import Fat32.Proofs.Volume.Regions

/-!
# Overwriting a device

A device on which some bytes have become others. It refuses and fails the same reads, for nothing
else about it has changed; a read that succeeds tells the old image from the new one only if they
differ in the bytes that it takes.
-/

namespace Fat32

theorem Stream.le_size_of_fault? {stream : Stream} {offset count : Nat}
    (h : stream.fault? offset count = none) : offset + count ≤ stream.image.size := by
  rw [fault?] at h
  split at h
  · contradiction
  · split at h
    · assumption
    · contradiction

namespace Device

def image (device : Device) : Image :=
  match device.backing with
  | .memory image => image
  | .stream stream => stream.image

/-- The device with another image behind it. The length that a stream reports and its faults stay
as they are. -/
def overwrite (device : Device) (image : Image) : Device :=
  match device.backing with
  | .memory _ => ⟨device.sectorSize, .memory image⟩
  | .stream stream => ⟨device.sectorSize, .stream { stream with image }⟩

@[simp] theorem sectorSize_overwrite (device : Device) (image : Image) :
    (device.overwrite image).sectorSize = device.sectorSize := by
  rcases device with ⟨size, before | stream⟩ <;> rfl

theorem result_copy_ofStream {stream : Stream} {image : Image}
    (hsize : image.size = stream.image.size) (size first count : Nat) :
    ((ofStream { stream with image } size).copy first count).1.result =
      match stream.fault? (first * size) count with
      | none => .ok (image.slice (first * size) count)
      | some fault => .error (.io first fault) := by
  have hfault (reads : Array StreamRead) :
      Stream.fault? { stream with image, reads } (first * size) count =
        stream.fault? (first * size) count := by
    simp only [Stream.fault?, hsize]
  simp only [ofStream, copy, Stream.read, hfault]
  cases stream.fault? (first * size) count <;> rfl

theorem result_readSectors_ofStream (stream : Stream) (size first count length : Nat) :
    (∃ error, ∀ image : Image, image.size = stream.image.size →
      ((ofStream { stream with image } size).readSectors first count length).1.result =
        .error error) ∨
    (count * size = 0 ∨ first * size + count * size ≤ stream.image.size) ∧
      ∀ image : Image, image.size = stream.image.size →
        ((ofStream { stream with image } size).readSectors first count length).1.result =
          .ok (image.slice (first * size) (count * size)) := by
  by_cases hlength : length = count * size
  · have hsector (image : Image) : (ofStream { stream with image } size).sectorSize = size := rfl
    -- what the last sector is checked against is the size that the stream reports
    have hrefusal (image : Image) : (ofStream { stream with image } size).refusal?
        (first + count - 1) size = (ofStream stream size).refusal? (first + count - 1) size := rfl
    simp only [readSectors_ofStream_eq_readRun size hlength, readRun, hsector, hrefusal]
    by_cases hcount : count = 0
    · subst hcount
      exact .inr ⟨.inl (Nat.zero_mul size), fun image _ => by simp [Transfer.result, Except.map]⟩
    simp only [if_neg hcount]
    cases (ofStream stream size).refusal? (first + count - 1) size with
    | some error => exact .inl ⟨error, fun _ _ => rfl⟩
    | none =>
        cases hfault : stream.fault? (first * size) (count * size) with
        | none =>
            refine .inr ⟨.inr (Stream.le_size_of_fault? hfault), fun image hsize => ?_⟩
            rw [result_copy_ofStream hsize, hfault]
        | some fault =>
            refine .inl ⟨.io first fault, fun image hsize => ?_⟩
            rw [result_copy_ofStream hsize, hfault]
  · refine .inl ⟨.io first .bufferSize, fun image _ => ?_⟩
    rw [readSectors_of_length_ne _ first hlength]
    rfl

theorem result_readSectors_overwrite {device : Device} {image : Image}
    (hsize : image.size = device.image.size) (hpos : 0 < device.sectorSize)
    (first count length : Nat) :
    (∃ error, (device.readSectors first count length).1.result = .error error ∧
      ((device.overwrite image).readSectors first count length).1.result = .error error) ∨
    let offset := first * device.sectorSize
    let size := count * device.sectorSize
    (size = 0 ∨ offset + size ≤ device.image.size) ∧
      (device.readSectors first count length).1.result = .ok (device.image.slice offset size) ∧
      ((device.overwrite image).readSectors first count length).1.result =
        .ok (image.slice offset size) := by
  rcases device with ⟨size, before | stream⟩
  · rcases result_readSectors_cases hsize.symm first count length with
      herror | ⟨bytes, bytesOther, hbytes, hother⟩
    · exact .inl herror
    · obtain ⟨rfl, hfits⟩ := eq_slice_of_readSectors hpos hbytes
      obtain ⟨rfl, -⟩ := eq_slice_of_readSectors hpos hother
      exact .inr ⟨hfits, hbytes, hother⟩
  · rcases result_readSectors_ofStream stream size first count length with
      ⟨error, herror⟩ | ⟨hfits, hok⟩
    · exact .inl ⟨error, herror stream.image rfl, herror image hsize⟩
    · exact .inr ⟨hfits, hok stream.image rfl, hok image hsize⟩

end Device

theorem Image.valueAt_slice (image : Image) (start : Nat) {offset width count : Nat}
    (h : offset + width ≤ count) : (image.slice start count).valueAt offset width =
      (image.slice (start + offset) width).valueAt 0 width := by
  obtain ⟨rest, rfl⟩ := Nat.exists_eq_add_of_le h
  have hword := Bytes.valueAt_append (image.slice start offset)
    (image.slice (start + offset) width ++ image.slice (start + offset + width) rest) 0 width
  rw [length_slice, Nat.add_zero, slice_append, slice_append, ← Nat.add_assoc] at hword
  rw [hword, ← slice_append, Bytes.valueAt_append_left _ (by simp)]

namespace Volume

variable {volume : Volume} {device : Device} {image : Image} {cluster : UInt32}
variable (h : volume.Accepted) (hdvd : device.sectorSize ∣ volume.bytesPerSector.toNat)
  (hsize : image.size = device.image.size)
include h hdvd hsize

theorem sectorsOn_overwrite (sector : UInt32) (count length : Nat) :
    (∃ error, volume.sectorsOn device sector count length = .error error ∧
      volume.sectorsOn (device.overwrite image) sector count length = .error error) ∨
    let offset := sector.toNat * volume.bytesPerSector.toNat
    let size := count * volume.bytesPerSector.toNat
    (size = 0 ∨ offset + size ≤ device.image.size) ∧
      volume.sectorsOn device sector count length = .ok (device.image.slice offset size) ∧
      volume.sectorsOn (device.overwrite image) sector count length =
        .ok (image.slice offset size) := by
  have hpos := Nat.pos_of_dvd_of_pos hdvd (Nat.lt_of_lt_of_le (by decide) h.le_bytesPerSector)
  have hread := Device.result_readSectors_overwrite hsize hpos
    (sector.toNat * (volume.bytesPerSector.toNat / device.sectorSize))
    (count * (volume.bytesPerSector.toNat / device.sectorSize)) length
  rw [Nat.mul_assoc, Nat.mul_assoc, Nat.div_mul_cancel hdvd] at hread
  simpa only [sectorsOn, Device.sectorSize_overwrite] using hread

theorem linkOn_overwrite (hdata : volume.isDataCluster cluster)
    (hentry : device.image.AgreeOn image (volume.entryStart cluster)
      (volume.entryStart cluster + 4)) :
    volume.linkOn (device.overwrite image) cluster = volume.linkOn device cluster := by
  rw [linkOn, linkOn]
  rcases sectorsOn_overwrite h hdvd hsize (volume.entrySector cluster) 1
    volume.bytesPerSector.toNat with ⟨error, herror, hother⟩ | ⟨hfits, hbytes, hother⟩
  · rw [herror, hother]
  · have hoffset := h.entryOffset_add_le cluster
    have hstart := h.entryStart_eq hdata
    rw [Nat.one_mul] at hfits hbytes hother
    rw [hbytes, hother, Except.map, Except.map, Bytes.u32At, Bytes.u32At,
      Image.valueAt_slice _ _ hoffset, Image.valueAt_slice _ _ hoffset, ← hstart,
      hentry.slice_eq (by omega)]

theorem clusterOn_overwrite_cases (cluster : UInt32) :
    (∃ error, volume.clusterOn device cluster = .error error ∧
      volume.clusterOn (device.overwrite image) cluster = .error error) ∨
    volume.contentStart cluster + volume.clusterSize ≤ device.image.size ∧
      volume.clusterOn device cluster =
        .ok (device.image.slice (volume.contentStart cluster) volume.clusterSize) ∧
      volume.clusterOn (device.overwrite image) cluster =
        .ok (image.slice (volume.contentStart cluster) volume.clusterSize) := by
  rw [clusterOn, clusterOn]
  split
  case isFalse => exact .inl ⟨_, rfl, rfl⟩
  case isTrue hdata =>
    have hread := sectorsOn_overwrite h hdvd hsize (volume.clusterSector cluster)
      volume.sectorsPerCluster.toNat volume.clusterSize
    rw [Nat.mul_comm volume.sectorsPerCluster.toNat] at hread
    exact hread.imp_right fun hok =>
      ⟨hok.1.resolve_left (Nat.ne_of_gt h.clusterSize_pos), hok.2⟩

theorem clusterOn_overwrite (hcontent : device.image.AgreeOn image (volume.contentStart cluster)
      (volume.contentStart cluster + volume.clusterSize)) :
    volume.clusterOn (device.overwrite image) cluster = volume.clusterOn device cluster := by
  rcases clusterOn_overwrite_cases h hdvd hsize cluster with
    ⟨error, herror, hother⟩ | ⟨hfits, hbytes, hother⟩
  · rw [herror, hother]
  · rw [hbytes, hother, hcontent.slice_eq hfits]

theorem exists_front_of_clusterOn {bytes : Bytes} {count : Nat}
    (hcount : count ≤ volume.clusterSize)
    (hfront : device.image.AgreeOn image (volume.contentStart cluster)
      (volume.contentStart cluster + count))
    (hbytes : volume.clusterOn device cluster = .ok bytes) :
    ∃ front back backOther, front.length = count ∧ bytes = front ++ back ∧
      volume.clusterOn (device.overwrite image) cluster = .ok (front ++ backOther) := by
  rcases clusterOn_overwrite_cases h hdvd hsize cluster with
    ⟨error, herror, -⟩ | ⟨hfits, hheld, hother⟩
  · simp [herror] at hbytes
  · obtain rfl := Except.ok.inj (hheld.symm.trans hbytes)
    obtain ⟨more, hmore⟩ := Nat.exists_eq_add_of_le hcount
    refine ⟨device.image.slice (volume.contentStart cluster) count,
      device.image.slice (volume.contentStart cluster + count) more,
      image.slice (volume.contentStart cluster + count) more, Image.length_slice _ _ _, ?_, ?_⟩
    · rw [hmore, Image.slice_append]
    · rw [hother, hfront.slice_eq (by omega), hmore, Image.slice_append]

end Volume

end Fat32
