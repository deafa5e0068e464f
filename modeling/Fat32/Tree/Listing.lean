import Fat32.Path
import Fat32.Tree.Basic

/-!
# Listing a tree

The nodes below a directory one after the other: in each directory its files come first, and
each directory in it is followed at once by its own nodes. The listing keeps the nodes that are
due on a stack, so it can be taken step by step.
-/

namespace Fat32

/-- A node in a listing, with its path from the directory listed and the number of directories
between the two. -/
structure Listed where
  path : String
  depth : Nat
  node : Node
  deriving Repr

structure Listing where
  due : List Listed
  deriving Repr

namespace Listing

def children (path : String) (depth : Nat) (dir : Dir) : List Listed :=
  (dir.files.map Node.file ++ dir.dirs.map Node.dir).map fun node =>
    ⟨Path.join path node.name, depth, node⟩

def ofDir (dir : Dir) : Listing := ⟨children "" 0 dir⟩

def next? : Listing → Option (Listed × Listing)
  | ⟨[]⟩ => none
  | ⟨listed :: due⟩ =>
      match listed.node with
      | .file _ => some (listed, ⟨due⟩)
      | .dir dir => some (listed, ⟨children listed.path (listed.depth + 1) dir ++ due⟩)

def take : (limit : Nat) → Listing → List Listed
  | 0, _ => []
  | limit + 1, listing =>
      match listing.next? with
      | none => []
      | some (listed, rest) => listed :: take limit rest

end Listing

namespace Dir

def nodeCount (dir : Dir) : Nat := dir.fileCount + dir.dirCount

def listing (dir : Dir) : List Listed := (Listing.ofDir dir).take dir.nodeCount

end Dir

end Fat32
