import Fat32.Session

/-!
# Sectors of a volume

A sector of the volume is one or more whole sectors of the device.
-/

namespace Fat32.Volume

def readSectors (volume : Volume) (sector : UInt32) (count length : Nat) : Access Bytes := do
  let device := (← get).device
  let ratio := volume.bytesPerSector.toNat / device.sectorSize
  Session.readSectors (sector.toNat * ratio) (count * ratio) length

def readClusterInto (volume : Volume) (cluster : UInt32) (length : Nat) : Access Bytes :=
  if volume.isDataCluster cluster then
    volume.readSectors (volume.clusterSector cluster) volume.sectorsPerCluster.toNat length
  else throw (.invalidCluster cluster)

def readCluster (volume : Volume) (cluster : UInt32) : Access Bytes :=
  volume.readClusterInto cluster volume.clusterSize

end Fat32.Volume
