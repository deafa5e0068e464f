import Fat32.Proofs.Path
import Fat32.Proofs.Specimen
import Fat32.Proofs.Tree.Preorder
import Fat32.Tree.Find

/-!
# Finding what is listed

A path that leads to a node of a tree leads to one that is listed under just that path. The
converse needs names that can be told apart: a name that is empty or has a slash in it never
stands in a path, and of two nodes of one name only the first is found. Where no directory has such
names, every node listed is found at its path.
-/

namespace Fat32

namespace Dir

def names (dir : Dir) : List String := dir.files.map (·.name) ++ dir.dirs.map (·.name)

/-- In the directory and in each one below it all names are different and can stand in a path. -/
inductive WellNamed : Dir → Prop
  | intro {dir : Dir} : dir.names.Nodup → (∀ name ∈ dir.names, Path.IsComponent name) →
      (∀ child ∈ dir.dirs, child.WellNamed) → dir.WellNamed

variable {dir : Dir}

/-! ## Listed nodes -/

theorem mem_listedAll_iff {path : String} {depth : Nat} {dirs : List Dir} {listed : Listed} :
    listed ∈ listedAll path depth dirs ↔
      ∃ child ∈ dirs, listed = ⟨Path.join path child.name, depth, .dir child⟩ ∨
        listed ∈ child.listedAt (Path.join path child.name) (depth + 1) := by
  induction dirs with
  | nil => simp [listedAll]
  | cons dir dirs ih => simp [listedAll, Path.join, ih, or_assoc]

theorem mem_listedAt_iff {path : String} {depth : Nat} {listed : Listed} :
    listed ∈ dir.listedAt path depth ↔
      (∃ file ∈ dir.files, listed = ⟨Path.join path file.name, depth, .file file⟩) ∨
      ∃ child ∈ dir.dirs, listed = ⟨Path.join path child.name, depth, .dir child⟩ ∨
        listed ∈ child.listedAt (Path.join path child.name) (depth + 1) := by
  rcases dir with ⟨name, files, dirs⟩
  rw [listedAt, List.mem_append, List.mem_map, mem_listedAll_iff]
  simp only [Path.join, eq_comm]

theorem mem_listedAt_of_mem_listedAll {path : String} {depth : Nat} {listed : Listed}
    (h : listed ∈ listedAll path depth dir.dirs) : listed ∈ dir.listedAt path depth :=
  mem_listedAt_iff.mpr (.inr (mem_listedAll_iff.mp h))

/-! ## From paths to nodes -/

theorem mem_dirs_of_dirNamed? {name : String} {child : Dir} (h : dir.dirNamed? name = some child) :
    child ∈ dir.dirs ∧ child.name = name :=
  ⟨List.mem_of_find?_eq_some h, by simpa using List.find?_some h⟩

theorem mem_files_of_fileNamed? {name : String} {file : File}
    (h : dir.fileNamed? name = some file) : file ∈ dir.files ∧ file.name = name :=
  ⟨List.mem_of_find?_eq_some h, by simpa using List.find?_some h⟩

/-- Before the last name only directories count. -/
theorem follow?_cons {names : List String} (h : names ≠ []) (dir : Dir) (name : String) :
    dir.follow? (name :: names) = (dir.dirNamed? name).bind (·.follow? names) := by
  cases names with
  | nil => contradiction
  | cons next names => rfl

theorem mem_listedAt_of_follow? {name : String} {names : List String} {node : Node}
    (h : dir.follow? (name :: names) = some node) (path : String) (depth : Nat) :
    ⟨(name :: names).foldl Path.join path, depth + names.length, node⟩ ∈
      dir.listedAt path depth := by
  induction names generalizing dir name path depth with
  | nil =>
      rw [follow?] at h
      rw [mem_listedAt_iff]
      cases hdir : dir.dirNamed? name with
      | some child =>
          rw [hdir] at h
          obtain rfl := Option.some.inj h
          obtain ⟨hmem, rfl⟩ := mem_dirs_of_dirNamed? hdir
          exact .inr ⟨child, hmem, .inl rfl⟩
      | none =>
          rw [hdir] at h
          obtain ⟨file, hfile, rfl⟩ := Option.map_eq_some_iff.mp h
          obtain ⟨hmem, rfl⟩ := mem_files_of_fileNamed? hfile
          exact .inl ⟨file, hmem, rfl⟩
  | cons next names ih =>
      rw [follow?_cons (List.cons_ne_nil next names)] at h
      obtain ⟨child, hdir, hfollow⟩ := Option.bind_eq_some_iff.mp h
      obtain ⟨hmem, rfl⟩ := mem_dirs_of_dirNamed? hdir
      have hbelow := ih hfollow (Path.join path child.name) (depth + 1)
      rw [Nat.add_assoc, Nat.add_comm 1] at hbelow
      exact mem_listedAt_iff.mpr (.inr ⟨child, hmem, .inr hbelow⟩)

theorem mem_preorder_of_get? {path : String} {node : Node} (h : dir.get? path = some node)
    (hpath : Path.components path ≠ []) :
    let names := Path.components path
    ⟨Path.ofNames names, names.length - 1, node⟩ ∈ dir.preorder := by
  intro names
  obtain ⟨name, rest, hnames⟩ := List.exists_cons_of_ne_nil hpath
  have hlisted : _ ∈ dir.listedAt "" 0 :=
    mem_listedAt_of_follow? (by rw [← hnames]; exact h) "" 0
  rw [Path.foldl_join (List.cons_ne_nil name rest), String.empty_append, ← hnames] at hlisted
  have hlength : names.length - 1 = 0 + rest.length := by
    rw [show names = name :: rest from hnames, List.length_cons, Nat.add_sub_cancel, Nat.zero_add]
  rw [hlength]
  exact hlisted

/-! ## From nodes to paths -/

theorem find?_name {α : Type} {items : List α} {nameOf : α → String}
    (h : (items.map nameOf).Nodup) {item : α} (hitem : item ∈ items) :
    items.find? (nameOf · == nameOf item) = some item := by
  induction items with
  | nil => contradiction
  | cons first items ih =>
      obtain ⟨hfirst, hrest⟩ := List.nodup_cons.mp h
      rcases List.mem_cons.mp hitem with rfl | hmem
      · exact List.find?_cons_of_pos (beq_self_eq_true (nameOf item))
      · have hne : nameOf first ≠ nameOf item := fun heq =>
          hfirst (heq ▸ List.mem_map_of_mem hmem)
        rw [List.find?_cons_of_neg (by simpa using hne), ih hrest hmem]

theorem dirNamed?_name (h : dir.names.Nodup) {child : Dir} (hchild : child ∈ dir.dirs) :
    dir.dirNamed? child.name = some child :=
  find?_name (List.nodup_append.mp h).2.1 hchild

theorem follow?_file (h : dir.names.Nodup) {file : File} (hfile : file ∈ dir.files) :
    dir.follow? [file.name] = some (.file file) := by
  obtain ⟨hfiles, -, hdisjoint⟩ := List.nodup_append.mp h
  have hdir : dir.dirNamed? file.name = none := by
    refine List.find?_eq_none.mpr fun child hchild heq => ?_
    exact hdisjoint _ (List.mem_map_of_mem hfile) _ (List.mem_map_of_mem hchild)
      (beq_iff_eq.mp heq).symm
  have hfound : dir.fileNamed? file.name = some file := find?_name hfiles hfile
  rw [follow?, hdir, hfound]
  rfl

theorem WellNamed.exists_follow? (h : dir.WellNamed) {path : String} {depth : Nat}
    {listed : Listed} (hlisted : listed ∈ dir.listedAt path depth) :
    ∃ names, names ≠ [] ∧ (∀ name ∈ names, Path.IsComponent name) ∧
      listed.path = names.foldl Path.join path ∧ dir.follow? names = some listed.node := by
  induction h generalizing path depth with
  | @intro dir hnodup hcomponents _ ih =>
      rcases mem_listedAt_iff.mp hlisted with ⟨file, hfile, rfl⟩ | ⟨child, hchild, hbelow⟩
      · have hname : file.name ∈ dir.names :=
          List.mem_append_left _ (List.mem_map_of_mem hfile)
        exact ⟨[file.name], List.cons_ne_nil _ _,
          List.forall_mem_singleton.mpr (hcomponents _ hname), rfl, follow?_file hnodup hfile⟩
      · have hname := hcomponents child.name (List.mem_append_right _ (List.mem_map_of_mem hchild))
        have hdir := dirNamed?_name hnodup hchild
        rcases hbelow with rfl | hbelow
        · refine ⟨[child.name], List.cons_ne_nil _ _, List.forall_mem_singleton.mpr hname, rfl, ?_⟩
          rw [follow?, hdir]
        · obtain ⟨names, hne, hnames, hpath, hfollow⟩ := ih child hchild hbelow
          refine ⟨child.name :: names, List.cons_ne_nil _ _,
            List.forall_mem_cons.mpr ⟨hname, hnames⟩, hpath, ?_⟩
          rw [follow?_cons hne, hdir]
          exact hfollow

theorem WellNamed.get?_path (h : dir.WellNamed) {listed : Listed}
    (hlisted : listed ∈ dir.preorder) : dir.get? listed.path = some listed.node := by
  obtain ⟨names, hne, hnames, hpath, hfollow⟩ := h.exists_follow? hlisted
  rw [hpath, Path.foldl_join hne, String.empty_append, get?, Path.components_ofNames hnames,
    hfollow]

/-- What is found at a path is listed under the path through its components. In a well named tree
each node listed is found at its path, and nothing is found at a path that is not listed. -/
theorem get?_listing (dir : Dir) :
    (∀ path node, Path.components path ≠ [] → dir.get? path = some node →
      let names := Path.components path
      ⟨Path.ofNames names, names.length - 1, node⟩ ∈ dir.listing) ∧
    (dir.WellNamed →
      (∀ listed ∈ dir.listing, dir.get? listed.path = some listed.node) ∧
      ∀ path, Path.components path ≠ [] →
        (∀ listed ∈ dir.listing, listed.path ≠ Path.ofNames (Path.components path)) →
        dir.get? path = none) := by
  rw [listing_eq]
  refine ⟨fun path node hpath hget => mem_preorder_of_get? hget hpath, fun hnamed =>
    ⟨fun listed hlisted => hnamed.get?_path hlisted, fun path hpath hother => ?_⟩⟩
  rw [Option.eq_none_iff_forall_ne_some]
  intro node hget
  exact hother _ (mem_preorder_of_get? hget hpath) rfl

/-- Slashes more or less do not count on the way to a directory, and a file leads nowhere. -/
theorem get?_listing_specimen :
    let tree := Specimen.tree
    let empty : Dir := ⟨"F", [], []⟩
    tree.WellNamed ∧
      tree.get? "A//F/" = some (.dir empty) ∧ ⟨"/A/F", 1, .dir empty⟩ ∈ tree.listing ∧
      tree.get? "/A/E" = some (.file ⟨"E", 1, 7⟩) ∧ tree.get? "C/E" = none := by
  intro tree empty
  have hempty : empty.WellNamed :=
    .intro (by decide) (by decide) (List.forall_mem_nil _)
  have hbelow : (⟨"A", [⟨"E", 1, 7⟩], [empty]⟩ : Dir).WellNamed :=
    .intro (by decide) (by decide) (List.forall_mem_singleton.mpr hempty)
  have hnamed : tree.WellNamed :=
    .intro (by decide) (by decide) (List.forall_mem_singleton.mpr hbelow)
  have hget : tree.get? "A//F/" = some (.dir empty) := rfl
  obtain ⟨hlisted, hconverse⟩ := tree.get?_listing
  obtain ⟨hfound, hnone⟩ := hconverse hnamed
  have hpaths : tree.listing.map (·.path) = ["/C", "/A", "/A/E", "/A/F"] := by decide
  refine ⟨hnamed, hget, hlisted "A//F/" _ (by decide) hget, ?_, hnone "C/E" (by decide) ?_⟩
  · exact hfound ⟨"/A/E", 1, .file ⟨"E", 1, 7⟩⟩ (.tail _ (.tail _ (.head _)))
  · intro listed hmem heq
    have hpath : Path.ofNames (Path.components "C/E") ∈ tree.listing.map (·.path) :=
      heq ▸ List.mem_map_of_mem hmem
    rw [hpaths] at hpath
    exact absurd hpath (by decide)

end Dir

end Fat32
