/-!
# Trees of files and directories

A directory with everything below it, in the order of the volume. Two nodes of one name stay
two nodes.
-/

namespace Fat32

structure File where
  name : String
  size : UInt32
  firstCluster : UInt32
  deriving DecidableEq, Repr

structure Dir where
  name : String
  files : List File
  dirs : List Dir
  deriving Repr

inductive Node
  | file (file : File)
  | dir (dir : Dir)
  deriving Repr

inductive NodeKind
  | file
  | dir
  deriving DecidableEq, Repr

namespace NodeKind

def code : NodeKind → Nat
  | .file => 0
  | .dir => 1

def ofCode? : Nat → Option NodeKind
  | 0 => some .file
  | 1 => some .dir
  | _ => none

theorem ofCode?_eq_some_iff {n : Nat} {kind : NodeKind} :
    ofCode? n = some kind ↔ n = kind.code := by
  constructor
  · intro h
    unfold ofCode? at h
    split at h <;> simp_all [code] <;> subst h <;> rfl
  · rintro rfl
    cases kind <;> rfl

end NodeKind

namespace Node

def kind : Node → NodeKind
  | .file _ => .file
  | .dir _ => .dir

def name : Node → String
  | .file f => f.name
  | .dir d => d.name

def dir? : Node → Option Dir
  | .file _ => none
  | .dir d => some d

def file? : Node → Option File
  | .file f => some f
  | .dir _ => none

end Node

/-! ## Totals -/

mutual

def Dir.fileCount : Dir → Nat
  | ⟨_, files, dirs⟩ => files.length + fileCountAll dirs

def Dir.fileCountAll : List Dir → Nat
  | [] => 0
  | dir :: rest => dir.fileCount + fileCountAll rest

end

mutual

/-- Directories at any depth below a directory, which itself does not count. -/
def Dir.dirCount : Dir → Nat
  | ⟨_, _, dirs⟩ => dirCountAll dirs

def Dir.dirCountAll : List Dir → Nat
  | [] => 0
  | dir :: rest => 1 + dir.dirCount + dirCountAll rest

end

mutual

def Dir.totalSize : Dir → Nat
  | ⟨_, files, dirs⟩ => (files.map (·.size.toNat)).sum + totalSizeAll dirs

def Dir.totalSizeAll : List Dir → Nat
  | [] => 0
  | dir :: rest => dir.totalSize + totalSizeAll rest

end

end Fat32
