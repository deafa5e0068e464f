import Fat32.Path
import Fat32.Directory.Reading
import Fat32.Tree.Outline

/-!
# Surveys

Reading everything below a directory into a tree. The directories still to be read stand on an
agenda, and those found in one that is read go before the others, so the lines of the tree are
written in the order of an outline. No directory is read twice: one that leads back to a
directory above it has no end, and one that is reached on a second way is shared between two
directories, which a sound volume does not have. Either is an error of the directory reached.
-/

namespace Fat32

inductive FailurePolicy
  | abort
  /-- Leave it out of the tree and list it as skipped, if its error is its own. -/
  | skip
  deriving DecidableEq, Repr

namespace Survey

structure Options where
  maxDepth : Nat
  onFailure : FailurePolicy
  /-- The number of stream reads of the device at which the survey is called off. -/
  deadline : Option Nat
  deriving DecidableEq, Repr

/-- A path on a volume has at most 260 characters, of which every other one is a slash. -/
def Options.standard : Options := ⟨128, .abort, none⟩

structure Skipped where
  path : String
  error : Error
  deriving DecidableEq, Repr

/-- A directory to be read. The clusters of the directories above it are listed from the nearest
one up to the root. -/
structure Task where
  name : String
  cluster : UInt32
  path : String
  above : List UInt32
  deriving DecidableEq, Repr

def Task.depth (task : Task) : Nat := task.above.length

def Task.root (cluster : UInt32) : Task := ⟨"/", cluster, "/", []⟩

def Task.child (task : Task) (entry : Entry) : Task where
  name := entry.name
  cluster := entry.firstCluster
  path := Path.child task.path entry.name
  above := task.cluster :: task.above

structure Progress where
  agenda : List Task
  reached : Std.TreeSet UInt32
  lines : Array Outline.Line
  skipped : Array Skipped

def Progress.start (cluster : UInt32) : Progress := ⟨[.root cluster], ∅, #[], #[]⟩

/-- Why a directory is not to be read, if it is not: it lies too deep, or within itself. -/
def Task.refusal? (task : Task) (options : Options) : Option Error :=
  if task.depth > options.maxDepth ∨ task.cluster ∈ task.above then
    some (.tooDeep task.path options.maxDepth)
  else none

def filesOf (entries : List Entry) : List File :=
  (entries.filter fun entry => !entry.isHidden && !entry.isDirectory).map fun entry =>
    ⟨entry.name, entry.size, entry.firstCluster⟩

def dirsOf (entries : List Entry) : List Entry :=
  entries.filter fun entry => !entry.isHidden && entry.isDirectory

def visit (volume : Volume) (options : Options) (reached : Std.TreeSet UInt32) (task : Task) :
    StateM Session (Except Error (List Entry) × Std.TreeSet UInt32) := do
  if let some error := task.refusal? options then return (.error error, reached)
  if reached.contains task.cluster then
    Session.report [.directoryRevisited task.path task.cluster]
    return (.error (.corruptChain task.cluster task.cluster), reached)
  let entries ← (volume.readDirectory options.deadline task.path task.cluster).run
  return (entries, reached.insert task.cluster)

/-- Does one task. A directory that fails is skipped if the policy says so, unless it is the one
surveyed. -/
def step (volume : Volume) (options : Options) (task : Task) (rest : List Task)
    (progress : Progress) : Access Progress := do
  let (entries, reached) ← visit volume options progress.reached task
  match entries with
  | .ok entries =>
      let files := filesOf entries
      Session.report (files.map fun file => .fileFound task.path file.name file.size)
      return {
        progress with
        agenda := (dirsOf entries).map task.child ++ rest
        reached
        lines := progress.lines.push ⟨task.depth, .dir task.name⟩
          ++ Outline.files (task.depth + 1) files }
  | .error error =>
      if options.onFailure = .skip ∧ error.isSubtreeLocal ∧ task.depth ≠ 0 then
        Session.report [.subtreeOmitted task.path error]
        let skipped := progress.skipped.push ⟨task.path, error⟩
        return { progress with agenda := rest, reached, skipped }
      else throw error

def run (volume : Volume) (options : Options) : (limit : Nat) → Progress → Access Progress
  | 0, progress => return progress
  | limit + 1, progress =>
      match progress.agenda with
      | [] => return progress
      | task :: rest => do run volume options limit (← step volume options task rest progress)

end Survey

structure Survey where
  root : Dir
  skipped : List Survey.Skipped
  deriving Repr

namespace Survey

/-- A number of tasks that no survey exceeds: each data cluster is read for one directory at
most, whose entries fill no more than every data cluster. -/
def taskBound (volume : Volume) : Nat :=
  let clusters := volume.clusterCount.toNat
  1 + clusters * (clusters * (volume.clusterSize / 32))

end Survey

namespace Volume

/-- Reads everything below the directory at `cluster`, which becomes the root of the tree. The
first line written is always that of the root. -/
def survey (volume : Volume) (options : Survey.Options) (cluster : UInt32) : Access Survey := do
  let progress ← Survey.run volume options (Survey.taskBound volume) (.start cluster)
  let root := (Outline.toDir? progress.lines.toList).getD ⟨"", [], []⟩
  return ⟨root, progress.skipped.toList⟩

def treeAt (volume : Volume) (cluster : UInt32) : Access Dir := do
  return (← volume.survey .standard cluster).root

def tree (volume : Volume) : Access Dir := volume.treeAt volume.rootCluster

end Volume

end Fat32
