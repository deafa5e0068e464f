import Fat32.Proofs.Coupling
import Fat32.Proofs.Transfers
import Fat32.Proofs.Volume.Geometry

/-!
# Serving an image

What a device without faults serves of the image behind it. Sectors are read one by one from
memory and at once from a stream, and are of one size or another; but which bytes are served, and
whether a request is refused, hangs on the offsets of the bytes alone.
-/

namespace Fat32

/-- Errors that are the same but for the sector that they name. -/
inductive Error.UpToSector : Error → Error → Prop
  | refl (error : Error) : UpToSector error error
  | io (sector other : Nat) (fault : Fault) : UpToSector (.io sector fault) (.io other fault)

namespace Error.UpToSector

theorem symm {error other : Error} (h : UpToSector error other) : UpToSector other error := by
  cases h with
  | refl => exact .refl error
  | io sector other fault => exact .io other sector fault

theorem trans {error other third : Error} (h : UpToSector error other)
    (hthird : UpToSector other third) : UpToSector error third := by
  cases h with
  | refl => exact hthird
  | io sector _ fault =>
      cases hthird with
      | refl => exact .io sector _ fault
      | io _ third => exact .io sector third fault

end Error.UpToSector

theorem Alike.eq_io {α : Type} {result : Except Error α} {sector : Nat} {fault : Fault}
    (h : Alike Error.UpToSector result (.error (.io sector fault))) :
    ∃ other, result = .error (.io other fault) := by
  cases h with
  | error h =>
      cases h with
      | refl => exact ⟨sector, rfl⟩
      | io other => exact ⟨other, rfl⟩

/-- The `count` bytes from `offset`, for a buffer of `length` bytes. Errors name sector 0. -/
def Image.serve (image : Image) (offset count length : Nat) : Except Error Bytes :=
  if length ≠ count then .error (.io 0 .bufferSize)
  else if count = 0 ∨ offset + count ≤ image.size then .ok (image.slice offset count)
  else .error (.io 0 .outOfRange)

/-- All of the image is there and no read of it fails, whatever was read of it before. -/
inductive Backing.Holds (image : Image) : Backing → Prop
  | memory : Holds image (.memory image)
  | stream (reads : Array StreamRead) : Holds image (.stream ⟨image, image.size, .none, reads⟩)

/-- A device without faults whose sectors fill the image. -/
structure Device.Over (image : Image) (device : Device) : Prop where
  holds : device.backing.Holds image
  power : isPowerOfTwo device.sectorSize
  dvd : device.sectorSize ∣ image.size

theorem Image.serve_self (image : Image) (offset count : Nat) :
    image.serve offset count count =
      if count = 0 ∨ offset + count ≤ image.size then .ok (image.slice offset count)
      else .error (.io 0 .outOfRange) :=
  if_neg (not_not_intro rfl)

theorem Image.serve_sectors (image : Image) {size : Nat} (hsize : 0 < size) (start count : Nat) :
    image.serve (start * size) (count * size) (count * size) =
      if count = 0 ∨ start + count ≤ image.size / size then
        .ok (image.slice (start * size) (count * size))
      else .error (.io 0 .outOfRange) := by
  have hnone : count * size = 0 ↔ count = 0 := by
    rw [Nat.mul_eq_zero, or_iff_left (Nat.ne_of_gt hsize)]
  rw [serve_self]
  simp only [hnone, ← Nat.add_mul, Nat.le_div_iff_mul_le hsize]

namespace Device

open Error (UpToSector)

variable {image : Image}

section

variable {size count length : Nat} (hsize : 0 < size) (hlength : length = count * size)
include hsize hlength

theorem alike_readSectors_ofImage (first : Nat) :
    Alike UpToSector ((ofImage image size).readSectors first count length).1.result
      (image.serve (first * size) (count * size) length) := by
  rw [readSectors_ofImage image size hlength, hlength, image.serve_sectors hsize]
  by_cases hfits : count = 0 ∨ first + count ≤ image.size / size
  · rw [if_pos hfits, if_pos (by omega), show min count _ = count by omega]
    exact .ok _
  · rw [if_neg hfits, if_neg (by omega)]
    exact .error (.io _ _ _)

theorem alike_readSectors_ofStream (reads : Array StreamRead) (first : Nat) :
    Alike UpToSector
      ((ofStream ⟨image, image.size, .none, reads⟩ size).readSectors first count length).1.result
      (image.serve (first * size) (count * size) length) := by
  rw [readSectors_ofStream_eq_readRun size hlength, readRun_ofStream, hlength,
    image.serve_sectors hsize]
  split
  · exact .ok _
  · exact .error (.io _ _ _)

end

theorem alike_readSectors {device : Device} (h : device.backing.Holds image)
    (hsize : 0 < device.sectorSize) (first count length : Nat) :
    Alike UpToSector (device.readSectors first count length).1.result
      (image.serve (first * device.sectorSize) (count * device.sectorSize) length) := by
  by_cases hlength : length = count * device.sectorSize
  · rcases device with ⟨size, backing⟩
    cases h with
    | memory => exact alike_readSectors_ofImage hsize hlength first
    | stream reads => exact alike_readSectors_ofStream hsize hlength reads first
  · rw [readSectors_of_length_ne device first hlength, Image.serve, if_pos hlength]
    exact .error (.io _ _ _)

theorem Over.sectorSize_pos {device : Device} (h : device.Over image) : 0 < device.sectorSize :=
  pos_of_isPowerOfTwo h.power

end Device

end Fat32
