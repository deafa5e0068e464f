import Fat32.Bytes

/-!
# Allocation hints

A volume may keep a sector with the number of free clusters and the place where the search for
the next one should begin. Both are hints: a value of all ones means that none is known.
-/

namespace Fat32

structure Hints where
  freeClusters : Option UInt32
  nextFree : Option UInt32
  deriving DecidableEq, Repr

namespace Hints

def leadSignature : UInt32 := 0x41615252

def middleSignature : UInt32 := 0x61417272

def trailSignature : UInt32 := 0xAA550000

def known? (value : UInt32) : Option UInt32 := if value = 0xFFFFFFFF then none else some value

def ofBytes? (bytes : Bytes) : Option Hints :=
  if bytes.length < 512 || bytes.u32At 0 != leadSignature || bytes.u32At 484 != middleSignature
      || bytes.u32At 508 != trailSignature then none
  else some ⟨known? (bytes.u32At 488), known? (bytes.u32At 492)⟩

end Hints

end Fat32
