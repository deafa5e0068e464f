import Fat32.Proofs.Tree.Policies

/-!
# Descents

The way from the root of a tree to one of its directories. Where nothing was left out of a tree,
the directories in a directory stand for its entries one by one, so a descent takes an entry at
each step, and what the tree accounts for passes on to the directory reached.
-/

namespace Fat32

theorem Dir.eq_of_outline_eq {dir other : Dir} (h : dir.outline = other.outline) : dir = other := by
  have hdir := congrArg Outline.toDir? h
  rw [Outline.toDir?_outline, Outline.toDir?_outline] at hdir
  exact Option.some.inj hdir

namespace Survey

theorem eq_of_outline_eq {survey other : Survey}
    (h : (survey.root.outline, survey.skipped) = (other.root.outline, other.skipped)) :
    survey = other := by
  obtain ⟨houtline, hskipped⟩ := Prod.mk.inj h
  cases survey
  exact congr (congrArg Survey.mk (Dir.eq_of_outline_eq houtline)) hskipped

variable {read : UInt32 → Except Error (List Entry)} {maxDepth : Nat}

/-! ## Whole trees -/

theorem accounts_below_abort {cluster : UInt32} {survey : Survey}
    (h : Walk.below read maxDepth .abort cluster = .ok survey) :
    ∃ clusters, Accounts read maxDepth (.root cluster) survey.root clusters [] ∧
      clusters.Nodup := by
  rw [← Walk.skipped_of_below_abort h]
  exact accounts_below h

/-! ## Entries and what became of them -/

namespace Fates

variable {task : Task} {entries : List Entry} {files : List File} {dirs : List Dir}
  {clusters : List UInt32} {skipped : List Skipped}

theorem files_eq (h : Fates read maxDepth task entries files dirs clusters skipped) :
    files = filesOf entries := by
  induction h with
  | nil => rfl
  | hidden hhidden _ ih => rw [filesOf_cons_of_hidden hhidden, ih]
  | file hshown hfile _ ih => rw [filesOf_cons_of_file hshown hfile, ih]
  | dir hshown hdir _ _ _ _ _ ih => rw [filesOf_cons_of_dir hdir, ih]
  | skipped hshown hdir _ ih => rw [filesOf_cons_of_dir hdir, ih]

theorem accounts_child (h : Fates read maxDepth task entries files dirs clusters skipped)
    (hskipped : skipped = []) {i : Nat} {entry : Entry} {child : Dir}
    (hentry : (dirsOf entries)[i]? = some entry) (hchild : dirs[i]? = some child) :
    ∃ below, Accounts read maxDepth (task.child entry) child below [] ∧
      below.Sublist clusters := by
  -- only an entry that became a directory takes a place in both lists
  induction h generalizing i with
  | nil => contradiction
  | hidden hhidden _ ih =>
      rw [dirsOf_cons_of_hidden hhidden] at hentry
      exact ih hskipped hentry hchild
  | file hshown hfile _ ih =>
      rw [dirsOf_cons_of_file hfile] at hentry
      exact ih hskipped hentry hchild
  | dir hshown hdir hdepth hread hbelow _ _ ih =>
      obtain ⟨rfl, rfl⟩ := List.append_eq_nil_iff.mp hskipped
      rw [dirsOf_cons_of_dir hshown hdir] at hentry
      cases i with
      | zero =>
          obtain rfl := Option.some.inj hentry
          obtain rfl := Option.some.inj hchild
          exact ⟨_, .read hdepth hread hbelow, List.sublist_append_left _ _⟩
      | succ i =>
          obtain ⟨below, haccounts, hsublist⟩ := ih rfl hentry hchild
          exact ⟨below, haccounts, hsublist.trans (List.sublist_append_right _ _)⟩
  | skipped => contradiction

theorem names_eq (h : Fates read maxDepth task entries files dirs clusters skipped)
    (hskipped : skipped = []) : dirs.map (·.name) = (dirsOf entries).map (·.name) := by
  induction h with
  | nil => rfl
  | hidden hhidden _ ih => rw [dirsOf_cons_of_hidden hhidden, ih hskipped]
  | file hshown hfile _ ih => rw [dirsOf_cons_of_file hfile, ih hskipped]
  | dir hshown hdir _ _ _ _ _ ih =>
      rw [dirsOf_cons_of_dir hshown hdir, List.map_cons, List.map_cons,
        ih (List.append_eq_nil_iff.mp hskipped).2]
  | skipped => contradiction

end Fates

/-! ## Descents -/

/-- From the directory `root` at `cluster` down through directories of the given names to another
directory and its cluster. In each directory on the way, the entry in the place of the next
directory is one that `may` be taken under the name of that directory. -/
inductive Descends (read : UInt32 → Except Error (List Entry))
    (may : List Entry → String → Entry → Prop) (root : Dir) (cluster : UInt32) :
    List String → Dir → UInt32 → Prop
  | root : Descends read may root cluster [] root cluster
  | child {names : List String} {dir child : Dir} {above : UInt32} {entries : List Entry}
      {i : Nat} {entry : Entry} :
      Descends read may root cluster names dir above → read above = .ok entries →
      dir.dirs[i]? = some child → (dirsOf entries)[i]? = some entry →
      may entries child.name entry →
      Descends read may root cluster (names ++ [child.name]) child entry.firstCluster

theorem Descends.accounts {may : List Entry → String → Entry → Prop} {root dir : Dir}
    {cluster below : UInt32} {names : List String} {clusters : List UInt32}
    (h : Descends read may root cluster names dir below)
    (hroot : Accounts read maxDepth (.root cluster) root clusters []) :
    ∃ task clusters', Accounts read maxDepth task dir clusters' [] ∧ task.cluster = below ∧
      task.depth = names.length ∧ clusters'.Sublist clusters := by
  induction h with
  | root => exact ⟨.root cluster, clusters, hroot, rfl, rfl, .refl _⟩
  | @child names dir child above entries i entry _ hread hchild hentry _ ih =>
      obtain ⟨task, clusters', haccounts, rfl, hdepth, hsublist⟩ := ih
      cases haccounts with
      | read _ hread' hfates =>
          obtain rfl := Except.ok.inj (hread'.symm.trans hread)
          obtain ⟨below, hbelow, hbelowSublist⟩ := hfates.accounts_child rfl hentry hchild
          refine ⟨task.child entry, below, hbelow, rfl, ?_, ?_⟩
          · rw [Walk.depth_child, hdepth, List.length_append, List.length_singleton]
          · exact (hbelowSublist.trans (List.sublist_cons_self _ _)).trans hsublist

theorem Descends.exists_child {root dir child : Dir} {cluster above : UInt32} {names : List String}
    {clusters : List UInt32} (h : Descends read (fun _ _ _ => True) root cluster names dir above)
    (hroot : Accounts read maxDepth (.root cluster) root clusters []) {i : Nat}
    (hchild : dir.dirs[i]? = some child) :
    ∃ below,
      Descends read (fun _ _ _ => True) root cluster (names ++ [child.name]) child below := by
  obtain ⟨task, clusters', haccounts, rfl, -⟩ := h.accounts hroot
  cases haccounts with
  | @read entries files dirs clusters _ _ hread hfates =>
      have hlength : dirs.length = (dirsOf entries).length := by
        rw [← List.length_map, hfates.names_eq rfl, List.length_map]
      have hi : i < (dirsOf entries).length := hlength ▸ (List.getElem?_eq_some_iff.mp hchild).1
      exact ⟨_, h.child hread hchild (List.getElem?_eq_getElem hi) trivial⟩

theorem perform_survey_sound :
    ((Specimen.volume.survey ⟨2, .abort, none⟩ 2).perform
      (.start (.ofImage Specimen.sound 256))).1 = .ok ⟨Specimen.tree, []⟩ :=
  eq_ok_of_toOption_map eq_of_outline_eq (by decide +kernel)

theorem descends_specimen {may : List Entry → String → Entry → Prop}
    (h : may Specimen.rootEntries "A" ⟨"A", "A", ⟨0x10⟩, 0, 3⟩) :
    let session : Session := .start (.ofImage Specimen.sound 256)
    Descends (fun cluster => ((Specimen.volume.readDir cluster).perform session).1) may
      Specimen.tree Specimen.volume.rootCluster ["A"] ⟨"A", [⟨"E", 1, 7⟩], [⟨"F", [], []⟩]⟩ 3 := by
  intro session
  refine @Descends.child _ _ _ _ [] _ ⟨"A", [⟨"E", 1, 7⟩], [⟨"F", [], []⟩]⟩
    Specimen.volume.rootCluster Specimen.rootEntries 0 ⟨"A", "A", ⟨0x10⟩, 0, 3⟩ .root ?_ rfl rfl h
  exact eq_ok_of_toOption (by decide +kernel)

end Survey

end Fat32
