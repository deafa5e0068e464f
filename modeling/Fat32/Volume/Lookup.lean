import Fat32.Directory.Reading
import Fat32.Path

/-!
# Finding files by path

Components of a path are compared with long and short names without regard to ASCII case, and
the first entry that answers to one is taken. A directory whose entry gives cluster 0 is the
root, as the entry of a parent gives it.
-/

namespace Fat32.Volume

/-- The root has no entry of its own on the volume. -/
def rootEntry (volume : Volume) : Entry where
  name := "/"
  shortName := ""
  attributes := .directory
  size := 0
  firstCluster := volume.rootCluster

def select? (entries : List Entry) (name : String) : Option Entry :=
  entries.find? fun entry => !entry.isVolumeLabel && entry.answersTo name

def resolve (volume : Volume) (entry : Entry) : Entry :=
  if entry.isDirectory && entry.firstCluster == 0 then
    { entry with firstCluster := volume.rootCluster }
  else entry

def descend (volume : Volume) (here : String × Entry) (name : String) :
    Access (String × Entry) := do
  let (parent, entry) := here
  let path := Path.join parent name
  if !entry.isDirectory then throw (.notDirectory path)
  let entries ← volume.readDir entry.firstCluster
  match select? entries name with
  | none => throw (.notFound path)
  | some entry => return (path, volume.resolve entry)

def lookup (volume : Volume) (path : String) : Access Entry := do
  let (_, entry) ← (Path.components path).foldlM volume.descend ("", volume.rootEntry)
  return entry

def listDir (volume : Volume) (path : String) : Access (List Entry) := do
  let entry ← volume.lookup path
  if !entry.isDirectory then throw (.notDirectory path)
  let entries ← volume.readDir entry.firstCluster
  return entries.filter fun entry => !entry.isHidden

/-- The first `size` bytes of the chain from `start`, which has to hold that many. -/
def readContent (volume : Volume) (start : UInt32) (size : Nat) : Access Bytes := do
  if size = 0 then return []
  let visit (item : Except Error UInt32) (state : UInt32 × Array Bytes) := do
    let cluster ← item
    let bytes ← volume.readCluster cluster
    return .yield (cluster, state.2.push bytes)
  let count := (size + volume.clusterSize - 1) / volume.clusterSize
  let (last, clusters) ← Chain.forEach volume visit count (.ofStart volume start) (start, #[])
  let content := clusters.toList.flatten.take size
  if content.length < size then throw (.corruptChain start last)
  return content

def fileContent (volume : Volume) (path : String) : Access Bytes := do
  let entry ← volume.lookup path
  if entry.isDirectory then throw (.isDirectory path)
  volume.readContent entry.firstCluster entry.size.toNat

end Fat32.Volume
