import Fat32.Bytes

/-!
# Disk images

An image is a length and a byte at every offset below it. Reading a range is a map over its
offsets, so two images that agree on a range give the same bytes there.
-/

namespace Fat32

structure Image where
  size : Nat
  byte : Nat → UInt8

namespace Image

def ofByteArray (bytes : ByteArray) : Image where
  size := bytes.size
  byte i := if h : i < bytes.size then bytes[i] else 0

def slice (image : Image) (start count : Nat) : Bytes :=
  (List.range' start count).map image.byte

@[simp] theorem length_slice (image : Image) (start count : Nat) :
    (image.slice start count).length = count := by
  simp [slice]

@[simp] theorem slice_zero (image : Image) (start : Nat) : image.slice start 0 = [] := rfl

theorem slice_append (image : Image) (start m n : Nat) :
    image.slice start m ++ image.slice (start + m) n = image.slice start (m + n) := by
  simp [slice, ← List.map_append]

end Image

end Fat32
