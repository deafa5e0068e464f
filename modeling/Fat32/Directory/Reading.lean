import Fat32.Cluster.Chain
import Fat32.Directory.Decoder

/-!
# Reading directories

The entries of a directory, decoded cluster by cluster along its chain. Nothing after the end of
the directory is read.
-/

namespace Fat32

namespace Volume

def decodeNext (volume : Volume) (deadline : Option Nat) (path : String)
    (item : Except Error UInt32) (state : Decoder × Array Entry) :
    Access (ForInStep (Decoder × Array Entry)) := do
  Session.checkDeadline deadline path
  let cluster ← item
  let bytes ← volume.readCluster cluster
  let decoded := state.1.decode bytes
  Session.report decoded.events.toList
  let state := (decoded.decoder, state.2 ++ decoded.entries)
  return if decoded.decoder.finished then .done state else .yield state

def readDirectory (volume : Volume) (deadline : Option Nat) (path : String) (cluster : UInt32) :
    Access (List Entry) := do
  let (_, entries) ← Chain.forEach volume (volume.decodeNext deadline path) volume.chainBound
    (.ofStart volume cluster) (.initial, #[])
  Session.report [.directoryRead path cluster entries.size]
  return entries.toList

def readDir (volume : Volume) (cluster : UInt32) : Access (List Entry) :=
  volume.readDirectory none "" cluster

end Volume

end Fat32
