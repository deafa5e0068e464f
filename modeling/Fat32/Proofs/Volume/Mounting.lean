import Fat32.Proofs.Bytes
import Fat32.Proofs.Performing
import Fat32.Proofs.Serving
import Fat32.Volume.Mount

/-!
# Mounting an image

A boot record lies in the first 512 bytes of an image, however many more a device reads with
them. So what mounting comes to on a device without faults is settled by the image alone.
-/

namespace Fat32

/-! ## The start of a device -/

def Device.readStart (device : Device) : Transfer × Device :=
  let count := (BootRecord.length + device.sectorSize - 1) / device.sectorSize
  device.readSectors 0 count (count * device.sectorSize)

def Volume.ofStart (sectorSize : Nat) (start : Except Error Bytes) : Except Error Volume :=
  if isPowerOfTwo sectorSize then
    start.bind fun bytes =>
      match parse bytes with
      | .error flaw => .error (.bootRecord flaw)
      | .ok volume =>
          if volume.bytesPerSector.toNat < sectorSize then
            .error (.bootRecord .deviceSectorTooLarge)
          else .ok volume
  else .error (.bootRecord .deviceSectorSize)

theorem Volume.of_ofStart {sectorSize : Nat} {start : Except Error Bytes} {volume : Volume}
    (h : ofStart sectorSize start = .ok volume) :
    isPowerOfTwo sectorSize ∧ sectorSize ≤ volume.bytesPerSector.toNat ∧
      ∃ bytes, start = .ok bytes ∧ parse bytes = .ok volume := by
  rw [ofStart] at h
  split at h
  case isFalse => contradiction
  case isTrue hpower =>
    cases start with
    | error error => contradiction
    | ok bytes =>
        dsimp only [Except.bind] at h
        split at h
        · contradiction
        · next hparse =>
            split at h
            · contradiction
            · next hfits =>
                obtain rfl := Except.ok.inj h
                exact ⟨hpower, Nat.not_lt.mp hfits, bytes, rfl, hparse⟩

/-- A device whose sectors have no bytes, or any number that is no power of two, is refused before
anything is read from it. -/
theorem perform_mount_of_not_isPowerOfTwo {session : Session}
    (h : ¬ isPowerOfTwo session.device.sectorSize) :
    mount.perform session = (.error (.bootRecord .deviceSectorSize), session) := by
  rw [mount, Access.perform_get_bind]
  dsimp only
  rw [if_pos (by simpa using h)]
  rfl

theorem perform_mount (session : Session) :
    (∃ error later, mount.perform session = (.error error, later) ∧
      later.device.medium = session.device.medium ∧
      Volume.ofStart session.device.sectorSize session.device.readStart.1.result = .error error) ∨
    ∃ volume between, between.device = session.device.readStart.2 ∧
      mount.perform session =
        ((.ok ⟨volume, (volume.readHints.run between).1⟩), (volume.readHints.run between).2) ∧
      Volume.ofStart session.device.sectorSize session.device.readStart.1.result = .ok volume := by
  by_cases hpower : isPowerOfTwo session.device.sectorSize = true
  · rw [mount, Access.perform_get_bind, Volume.ofStart, Device.readStart]
    dsimp only
    rw [if_neg (by simp [hpower]), if_pos hpower, Access.perform_bind, Session.perform_readSectors]
    have hmedium := (session.device.readSectors_medium 0 ((BootRecord.length +
      session.device.sectorSize - 1) / session.device.sectorSize) ((BootRecord.length +
      session.device.sectorSize - 1) / session.device.sectorSize * session.device.sectorSize)).2
    generalize session.device.readSectors _ _ _ = start at hmedium ⊢
    rcases start.1.result with error | bytes
    · exact .inl ⟨error, _, rfl, hmedium, rfl⟩
    dsimp only [Except.bind]
    cases Volume.parse bytes with
    | error flaw => exact .inl ⟨_, _, rfl, hmedium, rfl⟩
    | ok volume =>
        dsimp only
        rw [Access.perform_report_bind]
        by_cases hfits : volume.bytesPerSector.toNat < session.device.sectorSize
        · rw [if_pos hfits, if_pos hfits]
          exact .inl ⟨_, _, rfl, hmedium, rfl⟩
        · rw [if_neg hfits, if_neg hfits]
          refine .inr ⟨volume, ?_⟩
          split
          · exact ⟨_, rfl, rfl, rfl⟩
          · exact ⟨_, rfl, rfl, rfl⟩
  · exact .inl ⟨_, _, perform_mount_of_not_isPowerOfTwo hpower, rfl, if_neg hpower⟩

theorem map_volume_mount (session : Session) : (mount.perform session).1.map (·.volume) =
    Volume.ofStart session.device.sectorSize session.device.readStart.1.result := by
  rcases perform_mount session with
    ⟨error, _, hmount, -, hstart⟩ | ⟨volume, _, -, hmount, hstart⟩ <;>
    rw [hmount, hstart] <;> rfl

theorem Volume.exists_gives_readHints (volume : Volume) (medium : Device) :
    ∃ hints, medium.Gives volume.readHints hints := by
  rw [readHints]
  split
  · exact ⟨none, (Device.Gives.report _).bind (.pure none)⟩
  · have hread := volume.gives_readSectors medium volume.hintSector.toUInt32 1
      volume.bytesPerSector.toNat
    generalize volume.sectorsOn medium _ _ _ = result at hread
    cases result with
    | error error => exact ⟨none, hread.bind ((Device.Gives.report _).bind (.pure none))⟩
    | ok bytes =>
        cases hhints : Hints.ofBytes? bytes with
        | none =>
            refine ⟨none, hread.bind ?_⟩
            simp only [hhints]
            exact (Device.Gives.report _).bind (.pure none)
        | some hints =>
            refine ⟨some hints, hread.bind ?_⟩
            simp only [hhints]
            exact .pure _

theorem medium_mount (session : Session) :
    (mount.perform session).2.device.medium = session.device.medium := by
  rcases perform_mount session with
    ⟨error, later, hmount, hmedium, -⟩ | ⟨volume, between, hbetween, hmount, -⟩
  · rw [hmount, hmedium]
  · obtain ⟨hints, hgives⟩ := volume.exists_gives_readHints session.device.medium
    have hmedium : between.device.medium = session.device.medium := by
      rw [hbetween]
      exact (session.device.readSectors_medium _ _ _).2
    rw [hmount]
    exact (hgives between hmedium).2

theorem of_mount {session later : Session} {mounted : Mounted}
    (h : mount.perform session = (.ok mounted, later)) :
    isPowerOfTwo session.device.sectorSize ∧
      session.device.sectorSize ≤ mounted.volume.bytesPerSector.toNat ∧
      (∃ bytes, session.device.readStart.1.result = .ok bytes ∧
        Volume.parse bytes = .ok mounted.volume) ∧
      ∃ between : Session, between.device = session.device.readStart.2 ∧
        later = (mounted.volume.readHints.run between).2 := by
  rcases perform_mount session with
    ⟨error, _, herror, -⟩ | ⟨volume, between, hbetween, hmount, hstart⟩
  · simp [h] at herror
  · rw [h] at hmount
    obtain ⟨hmounted, rfl⟩ := Prod.mk.inj hmount
    obtain rfl := Except.ok.inj hmounted
    obtain ⟨hpower, hle, hparse⟩ := Volume.of_ofStart hstart
    exact ⟨hpower, hle, hparse, between, hbetween, rfl⟩

/-- As long as the medium stays what it was when a volume was mounted from it, its sectors have
bytes. -/
theorem sectorSize_pos_of_mount {session later : Session} {mounted : Mounted}
    (h : (mount.perform session).1 = .ok mounted)
    (hlater : later.device.medium = session.device.medium) : 0 < later.device.sectorSize := by
  rw [Device.sectorSize_eq_of_medium hlater]
  exact pos_of_isPowerOfTwo (of_mount (Prod.ext h rfl)).1

theorem accepted_of_mount {session : Session} {mounted : Mounted}
    (h : (mount.perform session).1 = .ok mounted) :
    mounted.volume.Accepted ∧
      session.device.sectorSize ∣ mounted.volume.bytesPerSector.toNat := by
  obtain ⟨hpower, hle, ⟨bytes, -, hparse⟩, -⟩ := of_mount (Prod.ext h rfl)
  have haccepted := Volume.accepted_of_parse hparse
  exact ⟨haccepted, haccepted.dvd_bytesPerSector hpower hle⟩

/-! ## The start of an image -/

theorem BootRecord.ofBytes?_append {bytes : Bytes} (h : length ≤ bytes.length) (rest : Bytes) :
    ofBytes? (bytes ++ rest) = ofBytes? bytes := by
  have hlength : 512 ≤ bytes.length := h
  have hmore : ¬ (bytes ++ rest).length < length := by
    rw [List.length_append]
    omega
  rw [ofBytes?, ofBytes?, if_neg hmore, if_neg (by omega)]
  simp (disch := omega) only [Bytes.u16At, Bytes.u32At, Bytes.byteAt_append_left,
    Bytes.valueAt_append_left, Bytes.fieldAt_append_left]

theorem Volume.parse_append {bytes : Bytes} (h : BootRecord.length ≤ bytes.length)
    (rest : Bytes) : parse (bytes ++ rest) = parse bytes := by
  rw [parse, parse, BootRecord.ofBytes?_append h]

namespace Image

def volume (image : Image) : Except BootFlaw Volume :=
  Volume.parse (image.slice 0 (min BootRecord.length image.size))

def hints (image : Image) (volume : Volume) : Option Hints :=
  let sector := volume.hintSector
  let size := volume.bytesPerSector.toNat
  if sector = 0 ∨ sector ≥ volume.reservedSectors then none
  else (image.serve (sector.toNat * size) size size).toOption.bind Hints.ofBytes?

def mount (image : Image) : Except Error Mounted :=
  if image.size < BootRecord.length then .error (.io 0 .outOfRange)
  else
    match image.volume with
    | .error flaw => .error (.bootRecord flaw)
    | .ok volume => .ok ⟨volume, image.hints volume⟩

end Image

theorem Image.volume_of_le {image : Image} {count : Nat} (hcount : BootRecord.length ≤ count)
    (hsize : BootRecord.length ≤ image.size) :
    Volume.parse (image.slice 0 count) = image.volume := by
  obtain ⟨more, rfl⟩ := Nat.exists_eq_add_of_le hcount
  rw [← slice_append, Volume.parse_append (by simp), volume, Nat.min_eq_left hsize]

/-! ## Sectors of a volume -/

namespace Device

open Error (UpToSector)

variable {image : Image} {device : Device} {volume : Volume}

theorem Over.alike_sectorsOn (h : device.Over image)
    (hdvd : device.sectorSize ∣ volume.bytesPerSector.toNat) (sector : UInt32)
    (count length : Nat) :
    Alike UpToSector (volume.sectorsOn device sector count length)
      (image.serve (sector.toNat * volume.bytesPerSector.toNat)
        (count * volume.bytesPerSector.toNat) length) := by
  have hread := alike_readSectors h.holds h.sectorSize_pos
    (sector.toNat * (volume.bytesPerSector.toNat / device.sectorSize))
    (count * (volume.bytesPerSector.toNat / device.sectorSize)) length
  rwa [Nat.mul_assoc, Nat.mul_assoc, Nat.div_mul_cancel hdvd] at hread

theorem Over.clusterOn_eq (h : device.Over image)
    (hdvd : device.sectorSize ∣ volume.bytesPerSector.toNat) {cluster : UInt32}
    (hdata : volume.isDataCluster cluster)
    (hfits : volume.contentStart cluster + volume.clusterSize ≤ image.size) :
    volume.clusterOn device cluster =
      .ok (image.slice (volume.contentStart cluster) volume.clusterSize) := by
  have hread := h.alike_sectorsOn hdvd (volume.clusterSector cluster)
    volume.sectorsPerCluster.toNat volume.clusterSize
  rw [Nat.mul_comm volume.sectorsPerCluster.toNat] at hread
  change Alike UpToSector _ (image.serve (volume.contentStart cluster) volume.clusterSize
    volume.clusterSize) at hread
  rw [Image.serve_self, if_pos (.inr hfits)] at hread
  rw [Volume.clusterOn, if_pos hdata]
  exact (hread.symm .symm).eq_ok rfl

theorem Over.sectorSize_dvd (h : device.Over image) (hvolume : image.volume = .ok volume)
    (hfits : device.sectorSize ≤ volume.bytesPerSector.toNat) :
    device.sectorSize ∣ volume.bytesPerSector.toNat :=
  (Volume.accepted_of_parse hvolume).dvd_bytesPerSector h.power hfits

/-! ## Mounting -/

theorem Over.gives_readHints (h : device.Over image)
    (hdvd : device.sectorSize ∣ volume.bytesPerSector.toNat) :
    device.medium.Gives volume.readHints (image.hints volume) := by
  rw [Volume.readHints, Image.hints]
  split
  · exact (Gives.report _).bind (.pure _)
  · have hread := h.alike_sectorsOn hdvd volume.hintSector.toUInt32 1
      volume.bytesPerSector.toNat
    rw [UInt16.toNat_toUInt32, Nat.one_mul] at hread
    refine (volume.gives_readSectors device.medium _ _ _).bind ?_
    rw [Volume.sectorsOn_medium]
    generalize volume.sectorsOn device _ _ _ = result at hread ⊢
    generalize image.serve _ _ _ = served at hread ⊢
    cases hread with
    | error _ => exact (Gives.report _).bind (.pure _)
    | ok bytes =>
        change device.medium.Gives _ (Hints.ofBytes? bytes)
        dsimp only
        cases Hints.ofBytes? bytes with
        | none => exact (Gives.report _).bind (.pure _)
        | some hints => exact .pure _

theorem le_roundedUp {size : Nat} (hsize : 0 < size) (length : Nat) :
    length ≤ (length + size - 1) / size * size := by
  have hdiv := Nat.div_add_mod (length + size - 1) size
  have hmod := Nat.mod_lt (length + size - 1) hsize
  rw [Nat.mul_comm] at hdiv
  omega

theorem roundedUp_le {size length total : Nat} (hsize : 0 < size) (hdvd : size ∣ total)
    (h : length ≤ total) : (length + size - 1) / size * size ≤ total := by
  obtain ⟨count, rfl⟩ := hdvd
  have hlt : (length + size - 1) / size < count + 1 := by
    rw [Nat.div_lt_iff_lt_mul hsize, Nat.succ_mul, Nat.mul_comm]
    omega
  rw [Nat.mul_comm size]
  exact Nat.mul_le_mul_right size (Nat.le_of_lt_succ hlt)

/-- The sectors in which the boot record lies are there just when the record is, and whatever else
they hold does not count. -/
theorem Over.readStart_cases (h : device.Over image) {count : Nat}
    (hcount : count = (BootRecord.length + device.sectorSize - 1) / device.sectorSize) :
    (image.size < BootRecord.length ∧ ∃ sector,
      (device.readSectors 0 count (count * device.sectorSize)).1.result =
        .error (.io sector .outOfRange)) ∨
    (BootRecord.length ≤ image.size ∧ ∃ bytes,
      (device.readSectors 0 count (count * device.sectorSize)).1.result = .ok bytes ∧
      Volume.parse bytes = image.volume) := by
  have hcover := le_roundedUp h.sectorSize_pos BootRecord.length
  have hread := alike_readSectors h.holds h.sectorSize_pos 0 count (count * device.sectorSize)
  rw [Nat.zero_mul, Image.serve_self, Nat.zero_add] at hread
  rw [← hcount] at hcover
  rcases Nat.lt_or_ge image.size BootRecord.length with hlt | hle
  · have hpos : 0 < BootRecord.length := by decide
    rw [if_neg (by omega)] at hread
    exact .inl ⟨hlt, hread.eq_io⟩
  · -- the image ends with a sector, so none of those that the record needs is cut off
    have hwithin := roundedUp_le h.sectorSize_pos h.dvd hle
    rw [← hcount] at hwithin
    rw [if_pos (.inr hwithin)] at hread
    exact .inr ⟨hle, _, (hread.symm .symm).eq_ok rfl, Image.volume_of_le hcover hle⟩

theorem Over.exists_gives_mount (h : device.Over image)
    (hfits : ∀ volume, image.volume = .ok volume →
      device.sectorSize ≤ volume.bytesPerSector.toNat) :
    ∃ result, device.medium.Gives mount.run result ∧ Alike UpToSector result image.mount := by
  obtain ⟨count, hcount⟩ :
      ∃ count, count = (BootRecord.length + device.sectorSize - 1) / device.sectorSize := ⟨_, rfl⟩
  have hread := Session.gives_readSectors device.medium 0 count (count * device.sectorSize)
  rw [← (device.readSectors_medium _ _ _).1] at hread
  have hsize (session : Session) (hsession : session.device.medium = device.medium) :
      session.device.sectorSize = device.sectorSize := sectorSize_eq_of_medium hsession
  have hpower : ¬ (!isPowerOfTwo device.sectorSize) = true := by simp [h.power]
  rcases h.readStart_cases hcount with ⟨hlt, sector, hstart⟩ | ⟨hle, bytes, hstart, hparse⟩ <;>
    rw [hstart] at hread
  · refine ⟨.error (.io sector .outOfRange), Gives.get_bind fun session hsession => ?_, ?_⟩
    · dsimp only
      rw [hsize session hsession, ← hcount, if_neg hpower]
      exact hread.error_bind
    · rw [Image.mount, if_pos hlt]
      exact .error (.io _ _ _)
  · refine ⟨image.mount, Gives.get_bind fun session hsession => ?_, .refl .refl _⟩
    dsimp only
    rw [hsize session hsession, ← hcount, if_neg hpower]
    refine hread.ok_bind ?_
    rw [hparse, Image.mount, if_neg (Nat.not_lt.mpr hle)]
    cases hvolume : image.volume with
    | error flaw => exact .throw _
    | ok volume =>
        have hfit := hfits volume hvolume
        have hhints : device.medium.Gives
            (do return ⟨volume, ← volume.readHints⟩ : Access Mounted).run
            (.ok ⟨volume, image.hints volume⟩) :=
          (h.gives_readHints (h.sectorSize_dvd hvolume hfit)).lift_bind (.access_pure _)
        refine (Gives.report _).lift_bind ?_
        dsimp only
        rw [if_neg (Nat.not_lt.mpr hfit)]
        split
        · exact (Gives.report _).lift_bind hhints
        · exact hhints

end Device

end Fat32
