import Fat32.Error
import Fat32.Image

/-!
# Devices

A device serves sectors by number. One kind holds its image in memory; the other shares a
stream, which reports a length of its own, may fail any read with any fault, and remembers what was
read from it. A read copies sectors to the front of a buffer of the caller: the bytes copied before
a refusal or failure stay there, and the rest of the buffer is left as it was.

A device with sectors of no bytes can be built and asked for their size, and no volume is mounted
from it.
-/

namespace Fat32

/-- The bytes from `first` up to but not including `past`, which cannot be read. -/
structure Damage where
  first : Nat
  past : Nat
  deriving DecidableEq, Repr

/-- How the medium behind a stream fails, by the offset of a read and its number of bytes. -/
structure Faults where
  fault? : (offset count : Nat) → Option Fault

namespace Faults

def none : Faults := ⟨fun _ _ => .none⟩

def ofDamage (damage : List Damage) : Faults :=
  ⟨fun offset count =>
    if damage.all fun d => d.past ≤ offset || offset + count ≤ d.first then .none
    else some .medium⟩

instance : Coe (List Damage) Faults := ⟨ofDamage⟩

end Faults

structure StreamRead where
  offset : Nat
  count : Nat
  deriving DecidableEq, Repr

structure Stream where
  image : Image
  reportedSize : Nat
  damage : Faults
  reads : Array StreamRead

inductive Backing
  | memory (image : Image)
  | stream (stream : Stream)

structure Device where
  sectorSize : Nat
  backing : Backing

/-- The outcome of a read, and the bytes that it copied. -/
structure Transfer where
  outcome : Except Error Unit
  copied : Bytes

namespace Transfer

def refused (error : Error) : Transfer := ⟨.error error, []⟩

def buffer (transfer : Transfer) (before : Bytes) : Bytes :=
  transfer.copied ++ before.drop transfer.copied.length

end Transfer

/-! ## Streams -/

namespace Stream

def ofImage (image : Image) (reportedSize : Nat) (damage : Faults) : Stream :=
  ⟨image, reportedSize, damage, #[]⟩

def whole (image : Image) : Stream := ofImage image image.size .none

/-- A stream that reports `size` bytes and serves none. -/
def unreadable (size : Nat) : Stream := ofImage (.ofByteArray .empty) size .none

/-- Why `count` bytes from `offset` cannot be read, if they cannot. Beyond the image the medium
fails. -/
def fault? (stream : Stream) (offset count : Nat) : Option Fault :=
  match stream.damage.fault? offset count with
  | some fault => some fault
  | none => if offset + count ≤ stream.image.size then none else some .medium

/-- Reads from a stream, which remembers also the reads that fail. -/
def read : Stream → (offset count : Nat) → Except Fault Bytes × Stream
  | ⟨image, reportedSize, damage, reads⟩, offset, count =>
      let stream : Stream := ⟨image, reportedSize, damage, reads.push ⟨offset, count⟩⟩
      match stream.fault? offset count with
      | none => (.ok (image.slice offset count), stream)
      | some fault => (.error fault, stream)

end Stream

namespace Device

/-- A device on an image in memory. Bytes at its end that do not fill a sector do not count. -/
def ofImage (image : Image) (sectorSize : Nat) : Device := ⟨sectorSize, .memory image⟩

def ofStream (stream : Stream) (sectorSize : Nat) : Device := ⟨sectorSize, .stream stream⟩

def byteCount (device : Device) : Nat :=
  match device.backing with
  | .memory image => image.size
  | .stream stream => stream.reportedSize

def sectorCount (device : Device) : Nat := device.byteCount / device.sectorSize

def readCount (device : Device) : Nat :=
  match device.backing with
  | .memory _ => 0
  | .stream stream => stream.reads.size

/-! ## Reading -/

def refusal? (device : Device) (sector length : Nat) : Option Error :=
  if sector ≥ device.sectorCount then some (.io sector .outOfRange)
  else if length ≠ device.sectorSize then some (.io sector .bufferSize)
  else none

/-- Copies `length` bytes from the first byte of `sector`, as one read of the stream if there is
one. A failure is reported for that sector. -/
def copy : Device → (sector length : Nat) → Transfer × Device
  | ⟨size, .memory image⟩, sector, length =>
      (⟨.ok (), image.slice (sector * size) length⟩, ⟨size, .memory image⟩)
  | ⟨size, .stream stream⟩, sector, length =>
      match stream.read (sector * size) length with
      | (.ok bytes, stream) => (⟨.ok (), bytes⟩, ⟨size, .stream stream⟩)
      | (.error fault, stream) => (.refused (.io sector fault), ⟨size, .stream stream⟩)

def readSector (device : Device) (sector length : Nat) : Transfer × Device :=
  match device.refusal? sector length with
  | some error => (.refused error, device)
  | none => device.copy sector length

/-- Reads `count` sectors one by one, after those in `copied`, of which the last stands first.
The first sector refused ends the read. -/
def readEach : (count : Nat) → Device → (start : Nat) → (copied : List Bytes) →
    Transfer × Device
  | 0, device, _, copied => (⟨.ok (), copied.reverse.flatten⟩, device)
  | count + 1, device, start, copied =>
      match device.readSector start device.sectorSize with
      | (⟨.ok (), sector⟩, device) => readEach count device (start + 1) (sector :: copied)
      | (⟨.error error, sector⟩, device) =>
          (⟨.error error, (sector :: copied).reverse.flatten⟩, device)

/-- Reads `count` sectors at once; only the last of them is looked up before. -/
def readRun (device : Device) (start count : Nat) : Transfer × Device :=
  if count = 0 then (⟨.ok (), []⟩, device)
  else
    match device.refusal? (start + count - 1) device.sectorSize with
    | some error => (.refused error, device)
    | none => device.copy start (count * device.sectorSize)

/-- Reads `count` sectors from `start` into a buffer of `length` bytes, which have to be just
their size: one by one from memory, at once from a stream. -/
def readSectors (device : Device) (start count length : Nat) : Transfer × Device :=
  if length ≠ count * device.sectorSize then (.refused (.io start .bufferSize), device)
  else
    match device.backing with
    | .memory _ => readEach count device start []
    | .stream _ => device.readRun start count

end Device

end Fat32
