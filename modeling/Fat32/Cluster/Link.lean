/-!
# Links

What the file allocation table says about a cluster.
-/

namespace Fat32

inductive Link
  | free
  /-- The value 1, which no chain holds. -/
  | reserved
  | next (cluster : UInt32)
  | bad
  | endOfChain
  deriving DecidableEq, Repr

namespace Link

/-- The bits of an entry that count; the four above them are reserved. -/
def mask : UInt32 := 0x0FFFFFFF

def badValue : UInt32 := 0x0FFFFFF7

def endValue : UInt32 := 0x0FFFFFF8

def ofRaw (raw : UInt32) : Link :=
  let value := raw &&& mask
  if value = 0 then .free
  else if value = 1 then .reserved
  else if value = badValue then .bad
  else if value ≥ endValue then .endOfChain
  else .next value

end Link

end Fat32
