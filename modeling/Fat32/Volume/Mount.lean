import Fat32.Volume.Hints
import Fat32.Volume.Sectors

/-!
# Mounting

Mounting reads and checks the boot record at the start of a device and looks for allocation
hints. Hints that are missing or unusable are reported and do not keep a volume from being used.
-/

namespace Fat32

structure Mounted where
  volume : Volume
  hints : Option Hints
  deriving DecidableEq, Repr

def Volume.readHints (volume : Volume) : StateM Session (Option Hints) := do
  let sector := volume.hintSector
  if sector = 0 ∨ sector ≥ volume.reservedSectors then
    Session.report [.noHintSector]
    return none
  match ← (volume.readSectors sector.toUInt32 1 volume.bytesPerSector.toNat).run with
  | .error error =>
      Session.report [.hintSectorUnreadable sector error]
      return none
  | .ok bytes =>
      match Hints.ofBytes? bytes with
      | none =>
          Session.report [.hintSectorInvalid sector]
          return none
      | some hints => return some hints

/-- Mounts the volume that begins at sector 0. The sectors of the device may be smaller than
those of the volume, but not larger. -/
def mount : Access Mounted := do
  let device := (← get).device
  let size := device.sectorSize
  if !isPowerOfTwo size then throw (.bootRecord .deviceSectorSize)
  let count := (BootRecord.length + size - 1) / size
  let bytes ← Session.readSectors 0 count (count * size)
  match Volume.parse bytes with
  | .error flaw => throw (.bootRecord flaw)
  | .ok volume =>
      Session.report [.volumeRead volume]
      if volume.bytesPerSector.toNat < size then throw (.bootRecord .deviceSectorTooLarge)
      let needed := volume.totalSectors.toNat * volume.bytesPerSector.toNat
      let available := device.sectorCount * size
      if needed > available then Session.report [.volumeExceedsDevice needed available]
      return ⟨volume, ← volume.readHints⟩

end Fat32
