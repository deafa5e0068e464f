import Fat32.Tree.Listing
import Mathlib.Algebra.Order.BigOperators.Group.List
import Mathlib.Algebra.Order.Ring.Nat

/-!
# Listings in order

The nodes below a directory, told by recursion: its files, then each directory in it with the nodes
below that one right after it. A listing, which keeps a stack of nodes that are due, gives just
these nodes one by one and then ends: whatever is due stands for itself and the nodes below it.
-/

namespace Fat32

namespace Dir

mutual

/-- The nodes below a directory at `path`. Those directly in it lie at `depth`. -/
def listedAt (path : String) (depth : Nat) : Dir → List Listed
  | ⟨_, files, dirs⟩ =>
      files.map (fun file => ⟨path ++ "/" ++ file.name, depth, .file file⟩)
        ++ listedAll path depth dirs

def listedAll (path : String) (depth : Nat) : List Dir → List Listed
  | [] => []
  | dir :: rest =>
      let here := path ++ "/" ++ dir.name
      ⟨here, depth, .dir dir⟩ :: (dir.listedAt here (depth + 1) ++ listedAll path depth rest)

end

def preorder (dir : Dir) : List Listed := dir.listedAt "" 0

end Dir

/-! ## What nodes come to -/

/-- Among the nodes are so many files and directories, and the files have so many bytes. -/
structure Listed.Total (items : List Listed) (files dirs size : Nat) : Prop where
  files_eq : (items.filterMap fun listed => listed.node.file?).length = files
  dirs_eq : (items.filterMap fun listed => listed.node.dir?).length = dirs
  size_eq : ((items.filterMap fun listed => listed.node.file?).map (·.size.toNat)).sum = size

namespace Listed.Total

theorem nil : Total [] 0 0 0 := ⟨rfl, rfl, rfl⟩

theorem append {items others : List Listed} {files dirs size files' dirs' size' : Nat}
    (h : Total items files dirs size) (hothers : Total others files' dirs' size') :
    Total (items ++ others) (files + files') (dirs + dirs') (size + size') := by
  obtain ⟨rfl, rfl, rfl⟩ := h
  obtain ⟨rfl, rfl, rfl⟩ := hothers
  constructor <;> simp

theorem file_cons {items : List Listed} {files dirs size : Nat} (path : String) (depth : Nat)
    (file : File) (h : Total items files dirs size) :
    Total (⟨path, depth, .file file⟩ :: items) (files + 1) dirs (file.size.toNat + size) := by
  obtain ⟨rfl, rfl, rfl⟩ := h
  exact ⟨rfl, rfl, rfl⟩

theorem dir_cons {items : List Listed} {files dirs size : Nat} (path : String) (depth : Nat)
    (dir : Dir) (h : Total items files dirs size) :
    Total (⟨path, depth, .dir dir⟩ :: items) files (1 + dirs) size := by
  obtain ⟨rfl, rfl, rfl⟩ := h
  exact ⟨rfl, Nat.add_comm .., rfl⟩

theorem length_eq {items : List Listed} {files dirs size : Nat} (h : Total items files dirs size) :
    items.length = files + dirs := by
  obtain ⟨rfl, rfl, -⟩ := h
  induction items with
  | nil => rfl
  | cons listed items ih =>
      rcases listed with ⟨path, depth, file | dir⟩ <;>
        simp only [List.filterMap_cons, Node.file?, Node.dir?, List.length_cons, ih] <;> omega

theorem files (path : String) (depth : Nat) (files : List File) :
    Total (files.map fun file => ⟨path ++ "/" ++ file.name, depth, .file file⟩) files.length 0
      (files.map (·.size.toNat)).sum := by
  induction files with
  | nil => exact nil
  | cons file files ih => exact ih.file_cons _ _ file

end Listed.Total

namespace Dir

mutual

theorem total_listedAt (path : String) (depth : Nat) (dir : Dir) :
    Listed.Total (dir.listedAt path depth) dir.fileCount dir.dirCount dir.totalSize := by
  match dir with
  | ⟨name, files, dirs⟩ =>
      have h := (Listed.Total.files path depth files).append (total_listedAll path depth dirs)
      rwa [Nat.zero_add] at h

theorem total_listedAll (path : String) (depth : Nat) (dirs : List Dir) :
    Listed.Total (listedAll path depth dirs) (fileCountAll dirs) (dirCountAll dirs)
      (totalSizeAll dirs) := by
  match dirs with
  | [] => exact .nil
  | dir :: dirs =>
      have hdir := total_listedAt (path ++ "/" ++ dir.name) (depth + 1) dir
      have h := (hdir.append (total_listedAll path depth dirs)).dir_cons
        (path ++ "/" ++ dir.name) depth dir
      rwa [← Nat.add_assoc] at h

end

/-- The sizes of up to 2^32 files are summed in 64 bits without overflow. -/
theorem totalSize_lt {dir : Dir} (h : dir.fileCount ≤ 2 ^ 32) : dir.totalSize < 2 ^ 64 := by
  obtain ⟨hfiles, -, hsize⟩ := dir.total_listedAt "" 0
  generalize (dir.listedAt "" 0).filterMap (fun listed => listed.node.file?) = files at hfiles hsize
  have hle : (files.map (·.size.toNat)).sum ≤ (files.map (·.size.toNat)).length * (2 ^ 32 - 1) :=
    List.sum_le_card_nsmul _ _ <| List.forall_mem_map.mpr fun file _ =>
      Nat.le_sub_one_of_lt file.size.toNat_lt
  rw [hsize, List.length_map, hfiles] at hle
  calc dir.totalSize ≤ dir.fileCount * (2 ^ 32 - 1) := hle
    _ ≤ 2 ^ 32 * (2 ^ 32 - 1) := Nat.mul_le_mul_right _ h
    _ < 2 ^ 64 := by decide

end Dir

/-! ## Steps of a listing -/

def Listed.expanded (listed : Listed) : List Listed :=
  listed :: match listed.node with
    | .file _ => []
    | .dir dir => dir.listedAt listed.path (listed.depth + 1)

namespace Listing

inductive Yields : Listing → List Listed → Prop
  | done {listing : Listing} : listing.next? = none → Yields listing []
  | next {listing rest : Listing} {listed : Listed} {items : List Listed} :
      listing.next? = some (listed, rest) → Yields rest items → Yields listing (listed :: items)

theorem expanded_files (path : String) (depth : Nat) (files : List File) :
    (files.map fun file => Listed.mk (Path.join path file.name) depth (.file file)).flatMap
        Listed.expanded =
      files.map fun file => ⟨path ++ "/" ++ file.name, depth, .file file⟩ := by
  induction files with
  | nil => rfl
  | cons file files ih => exact congrArg (List.cons _) ih

theorem expanded_dirs (path : String) (depth : Nat) (dirs : List Dir) :
    (dirs.map fun dir => Listed.mk (Path.join path dir.name) depth (.dir dir)).flatMap
        Listed.expanded =
      Dir.listedAll path depth dirs := by
  induction dirs with
  | nil => rfl
  | cons dir dirs ih =>
      rw [List.map_cons, List.flatMap_cons, ih]
      rfl

theorem expanded_children (path : String) (depth : Nat) (dir : Dir) :
    (children path depth dir).flatMap Listed.expanded = dir.listedAt path depth := by
  rcases dir with ⟨name, files, dirs⟩
  rw [children, List.map_append, List.map_map, List.map_map, List.flatMap_append, Dir.listedAt,
    ← expanded_dirs, ← expanded_files]
  rfl

/-- A step gives the first of the nodes that the stack stands for and leaves the others. -/
theorem expanded_due_of_next? {listing rest : Listing} {listed : Listed}
    (h : listing.next? = some (listed, rest)) :
    listing.due.flatMap Listed.expanded = listed :: rest.due.flatMap Listed.expanded := by
  rcases listing with ⟨_ | ⟨⟨path, depth, file | dir⟩, due⟩⟩
  · contradiction
  · obtain ⟨rfl, rfl⟩ := Prod.mk.inj (Option.some.inj h)
    rfl
  · obtain ⟨rfl, rfl⟩ := Prod.mk.inj (Option.some.inj h)
    rw [List.flatMap_cons, List.flatMap_append, expanded_children]
    rfl

theorem exists_next?_of_expanded_due {listing : Listing} {listed : Listed} {items : List Listed}
    (h : listing.due.flatMap Listed.expanded = listed :: items) :
    ∃ rest, listing.next? = some (listed, rest) ∧ rest.due.flatMap Listed.expanded = items := by
  cases hnext : listing.next? with
  | none =>
      rcases listing with ⟨_ | ⟨⟨path, depth, file | dir⟩, due⟩⟩ <;> contradiction
  | some step =>
      obtain ⟨first, rest⟩ := step
      rw [expanded_due_of_next? hnext] at h
      obtain ⟨rfl, hitems⟩ := List.cons.inj h
      exact ⟨rest, rfl, hitems⟩

theorem yields_expanded_due (listing : Listing) :
    listing.Yields (listing.due.flatMap Listed.expanded) := by
  generalize hitems : listing.due.flatMap Listed.expanded = items
  induction items generalizing listing with
  | nil =>
      refine .done ?_
      rcases listing with ⟨_ | ⟨listed, due⟩⟩
      · rfl
      · contradiction
  | cons listed items ih =>
      obtain ⟨rest, hnext, hrest⟩ := exists_next?_of_expanded_due hitems
      exact .next hnext (ih rest hrest)

namespace Yields

variable {listing : Listing} {items others : List Listed}

theorem unique (h : listing.Yields items) (hothers : listing.Yields others) : items = others := by
  induction h generalizing others with
  | done hnone =>
      cases hothers with
      | done => rfl
      | next hnext => rw [hnone] at hnext; contradiction
  | next hnext _ ih =>
      cases hothers with
      | done hnone => rw [hnone] at hnext; contradiction
      | next hother hrest =>
          obtain ⟨rfl, rfl⟩ := Prod.mk.inj (Option.some.inj (hnext.symm.trans hother))
          rw [ih hrest]

theorem take_eq (h : listing.Yields items) {limit : Nat} (hlimit : items.length ≤ limit) :
    listing.take limit = items := by
  induction h generalizing limit with
  | done hnone =>
      cases limit with
      | zero => rfl
      | succ limit => rw [take, hnone]
  | next hnext _ ih =>
      obtain ⟨limit, rfl⟩ := Nat.exists_eq_add_of_le' hlimit
      rw [List.length_cons, ← Nat.add_assoc, take, hnext]
      exact congrArg (List.cons _) (ih (Nat.le_add_left _ _))

end Yields

end Listing

namespace Dir

theorem yields_preorder (dir : Dir) : (Listing.ofDir dir).Yields dir.preorder := by
  have h := (Listing.ofDir dir).yields_expanded_due
  rwa [Listing.ofDir, Listing.expanded_children] at h

theorem listing_eq (dir : Dir) : dir.listing = dir.preorder :=
  dir.yields_preorder.take_eq (Nat.le_of_eq (dir.total_listedAt "" 0).length_eq)

/-- The listing of a tree gives the nodes below its root in their order, each with its path and
depth, and then ends; they come to the totals of the tree. -/
theorem listing_preorder (dir : Dir) :
    (∀ items, (Listing.ofDir dir).Yields items ↔ items = dir.preorder) ∧
      dir.listing = dir.preorder ∧
      Listed.Total dir.listing dir.fileCount dir.dirCount dir.totalSize := by
  refine ⟨fun items => ⟨fun hitems => hitems.unique dir.yields_preorder, ?_⟩, dir.listing_eq, ?_⟩
  · rintro rfl
    exact dir.yields_preorder
  · rw [listing_eq]
    exact dir.total_listedAt "" 0

end Dir

example : Dir.listing ⟨"/", [⟨"A.TXT", 10, 3⟩], [⟨"SUB", [⟨"B.TXT", 5, 5⟩], []⟩]⟩ =
    [⟨"/A.TXT", 0, .file ⟨"A.TXT", 10, 3⟩⟩, ⟨"/SUB", 0, .dir ⟨"SUB", [⟨"B.TXT", 5, 5⟩], []⟩⟩,
      ⟨"/SUB/B.TXT", 1, .file ⟨"B.TXT", 5, 5⟩⟩] := by
  rfl

end Fat32
