import Fat32.Path
import Fat32.Tree.Basic

/-!
# Nodes by path

Names are compared exactly. Of several nodes of one name the first counts, and a directory
before a file; on the way to a node only directories count.
-/

namespace Fat32.Dir

def dirNamed? (dir : Dir) (name : String) : Option Dir := dir.dirs.find? (·.name == name)

def fileNamed? (dir : Dir) (name : String) : Option File := dir.files.find? (·.name == name)

def follow? (dir : Dir) : List String → Option Node
  | [] => some (.dir dir)
  | [name] =>
      match dir.dirNamed? name with
      | some child => some (.dir child)
      | none => (dir.fileNamed? name).map .file
  | name :: rest => (dir.dirNamed? name).bind (·.follow? rest)

/-- The node at `path` below a directory, which is its own node at a path without components. -/
def get? (dir : Dir) (path : String) : Option Node := dir.follow? (Path.components path)

end Fat32.Dir
