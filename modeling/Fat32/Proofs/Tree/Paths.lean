import Fat32.Proofs.Path
import Fat32.Proofs.Tree.Descent
import Fat32.Proofs.Volume.Files
import Fat32.Volume.Lookup

/-!
# Trees and paths

A tree and the paths of a volume tell of the same files and directories. A path is followed
component by component and knows nothing of the tree; but where each name on the way leads first
to the entry that the tree has in that place, both come to the same directory.
-/

namespace Fat32

namespace Survey

theorem filesOf_eq_map_filter (entries : List Entry) : filesOf entries =
    ((entries.filter fun entry => !entry.isHidden).filter fun entry => !entry.isDirectory).map
      Walk.fileOf := by
  rw [List.filter_filter]
  exact congrArg (List.map _) (List.filter_congr fun entry _ => Bool.and_comm ..)

theorem dirsOf_eq_filter (entries : List Entry) : dirsOf entries =
    (entries.filter fun entry => !entry.isHidden).filter Entry.isDirectory := by
  rw [List.filter_filter]
  exact List.filter_congr fun entry _ => Bool.and_comm ..

end Survey

open Text (caseFold)

/-- The entry is no label, and one of its names is `name` but for the case of letters. -/
def Entry.GoesBy (entry : Entry) (name : String) : Prop :=
  ¬ entry.isVolumeLabel ∧
    (caseFold entry.name = caseFold name ∨ caseFold entry.shortName = caseFold name)

theorem Entry.goesBy_iff {entry : Entry} {name : String} :
    entry.GoesBy name ↔ (!entry.isVolumeLabel && entry.answersTo name) = true := by
  simp [GoesBy, answersTo, Text.sameIgnoringCase_iff]

namespace Volume

/-- The name can stand in a path, and the entry is the first of all that go by it. -/
def Finds (entries : List Entry) (name : String) (entry : Entry) : Prop :=
  Path.IsComponent name ∧ entry.GoesBy name ∧
    ∃ before after, entries = before ++ entry :: after ∧ ∀ other ∈ before, ¬ other.GoesBy name

theorem select?_eq_some_iff {entries : List Entry} {name : String} {entry : Entry} :
    select? entries name = some entry ↔
      entry.GoesBy name ∧ ∃ before after, entries = before ++ entry :: after ∧
        ∀ other ∈ before, ¬ other.GoesBy name := by
  simp only [select?, List.find?_eq_some_iff_append, Entry.goesBy_iff, Bool.not_eq_true,
    Bool.not_eq_eq_eq_not, Bool.not_true]

theorem select?_eq_none_iff {entries : List Entry} {name : String} :
    select? entries name = none ↔ ∀ entry ∈ entries, ¬ entry.GoesBy name := by
  simp only [select?, List.find?_eq_none, Entry.goesBy_iff]

variable {volume : Volume} {session : Session}

/-! ## Entries -/

theorem resolve_of_isDataCluster {entry : Entry} (h : volume.isDataCluster entry.firstCluster) :
    volume.resolve entry = entry := by
  have hcluster : (entry.firstCluster == 0) = false := by
    rw [beq_eq_false_iff_ne]
    intro hzero
    rw [hzero] at h
    simp [isDataCluster] at h
  rw [resolve, hcluster, Bool.and_false]
  rfl

theorem resolve_of_file {entry : Entry} (h : ¬ entry.isDirectory) :
    volume.resolve entry = entry := by
  rw [resolve, if_neg (by simp [h])]

theorem gives_readDir_of_ok {cluster : UInt32} {entries : List Entry}
    (h : ((volume.readDir cluster).perform session).1 = .ok entries) :
    session.device.medium.Gives (volume.readDir cluster).run (.ok entries) := by
  rw [← h]
  exact volume.gives_readDirectory_readDir session "" cluster

/-! ## Following names -/

def Follows (volume : Volume) (session : Session) (names : List String) (entry : Entry) : Prop :=
  ∃ path, session.device.medium.Gives
    (names.foldlM volume.descend ("", volume.rootEntry)).run (.ok (path, entry))

namespace Follows

variable {names : List String} {entry : Entry}

theorem root (volume : Volume) (session : Session) :
    volume.Follows session [] volume.rootEntry :=
  ⟨"", .access_pure _⟩

theorem concat {here : Entry} {entries : List Entry} {name : String}
    (h : volume.Follows session names here) (hdir : here.isDirectory)
    (hread : ((volume.readDir here.firstCluster).perform session).1 = .ok entries)
    (hfinds : Finds entries name entry) :
    volume.Follows session (names ++ [name]) (volume.resolve entry) := by
  obtain ⟨path, hgives⟩ := h
  have hdescend : session.device.medium.Gives (volume.descend (path, here) name).run
      (.ok (Path.join path name, volume.resolve entry)) := by
    simp only [descend, hdir]
    refine (gives_readDir_of_ok hread).ok_bind ?_
    simp only [select?_eq_some_iff.mpr hfinds.2]
    exact .access_pure _
  refine ⟨Path.join path name, ?_⟩
  rw [List.foldlM_append]
  exact hgives.ok_bind (hdescend.ok_bind (.access_pure _))

theorem of_lookup {path : String} (h : ((volume.lookup path).perform session).1 = .ok entry) :
    volume.Follows session (Path.components path) entry := by
  obtain ⟨⟨walked, found⟩, later, hfold, hfound⟩ := Access.exists_of_perform_bind_eq_ok h
  obtain rfl : found = entry := Except.ok.inj hfound
  have hgives := (coupled_foldlM_descend Error.sameness_eq
    (volume.servedAlike_self session.device.medium) (Path.components path)
    ("", volume.rootEntry)).gives
  rw [hfold] at hgives
  exact ⟨walked, hgives⟩

theorem gives_lookup_of_components {path : String}
    (h : volume.Follows session (Path.components path) entry) :
    session.device.medium.Gives (volume.lookup path).run (.ok entry) := by
  obtain ⟨walked, hgives⟩ := h
  exact hgives.ok_bind (.access_pure _)

theorem gives_lookup (h : volume.Follows session names entry)
    (hnames : ∀ name ∈ names, Path.IsComponent name) :
    session.device.medium.Gives (volume.lookup (Path.ofNames names)).run (.ok entry) := by
  refine gives_lookup_of_components ?_
  rwa [Path.components_ofNames hnames]

theorem gives_lookup_file {here : Entry} {entries : List Entry} {name : String}
    (h : volume.Follows session names here) (hnames : ∀ name ∈ names, Path.IsComponent name)
    (hdir : here.isDirectory)
    (hread : ((volume.readDir here.firstCluster).perform session).1 = .ok entries)
    (hfinds : Finds entries name entry) (hfile : ¬ entry.isDirectory) :
    session.device.medium.Gives (volume.lookup (Path.ofNames (names ++ [name]))).run
      (.ok entry) := by
  have hfollows := h.concat hdir hread hfinds
  rw [resolve_of_file hfile] at hfollows
  exact hfollows.gives_lookup
    (List.forall_mem_append.mpr ⟨hnames, List.forall_mem_singleton.mpr hfinds.1⟩)

theorem gives_listDir_of_components {path : String}
    (h : volume.Follows session (Path.components path) entry) (hdir : entry.isDirectory) :
    session.device.medium.Gives (volume.listDir path).run
      (((volume.readDir entry.firstCluster).perform session).1.map fun entries =>
        entries.filter fun entry => !entry.isHidden) := by
  refine (gives_lookup_of_components h).ok_bind ?_
  simp only [hdir]
  have hread := volume.gives_readDirectory_readDir session "" entry.firstCluster
  exact (hread.access_bind fun _ _ => .access_pure _)

theorem gives_listDir {entries : List Entry} (h : volume.Follows session names entry)
    (hnames : ∀ name ∈ names, Path.IsComponent name) (hdir : entry.isDirectory)
    (hread : ((volume.readDir entry.firstCluster).perform session).1 = .ok entries) :
    session.device.medium.Gives (volume.listDir (Path.ofNames names)).run
      (.ok (entries.filter fun entry => !entry.isHidden)) := by
  have hlist : session.device.medium.Gives (volume.listDir (Path.ofNames names)).run _ :=
    gives_listDir_of_components (by rwa [Path.components_ofNames hnames]) hdir
  rwa [hread] at hlist

end Follows

theorem isDirectory_rootEntry (volume : Volume) : volume.rootEntry.isDirectory :=
  (by decide : Attributes.directory.isDirectory = true)

/-- Where the entries of a descent are found by their names, the names lead to the directory that
the descent reaches. -/
theorem follows_of_descends {root dir : Dir} {cluster : UInt32} {names : List String}
    {clusters : List UInt32} {maxDepth : Nat}
    (h : Survey.Descends (fun cluster => ((volume.readDir cluster).perform session).1) Finds root
      volume.rootCluster names dir cluster)
    (hroot : Survey.Accounts (fun cluster => ((volume.readDir cluster).perform session).1) maxDepth
      (.root volume.rootCluster) root clusters []) :
    (∀ name ∈ names, Path.IsComponent name) ∧
      ∃ entry, volume.Follows session names entry ∧ entry.isDirectory ∧
        entry.firstCluster = cluster := by
  induction h with
  | root =>
      exact ⟨List.forall_mem_nil _, _, .root volume session, isDirectory_rootEntry volume, rfl⟩
  | @child names dir child above entries i entry hdescends hread hchild hentry hfinds ih =>
      obtain ⟨hnames, here, hfollows, hdir, rfl⟩ := ih
      obtain ⟨task, _, haccounts, hcluster, -⟩ :=
        (hdescends.child hread hchild hentry hfinds).accounts hroot
      -- the directory was read, so its cluster does not stand for the root
      have hresolve : volume.resolve entry = entry := by
        cases haccounts with
        | read _ hreadChild =>
            rw [hcluster] at hreadChild
            exact resolve_of_isDataCluster (length_readDir hreadChild).1
      have hentryDir : entry.isDirectory := by
        have hmem := List.mem_of_getElem? hentry
        rw [Survey.dirsOf_eq_filter, List.mem_filter] at hmem
        exact hmem.2
      have hconcat := hfollows.concat hdir hread hfinds
      rw [hresolve] at hconcat
      exact ⟨List.forall_mem_append.mpr ⟨hnames, List.forall_mem_singleton.mpr hfinds.1⟩, entry,
        hconcat, hentryDir, rfl⟩

/-! ## Trees -/

/-- A tree tells of the same as the paths that lead to the entries of its directories: the
directory at such a path lists the files and the names of the directories that the tree has there,
and a file that is found by its name has the size and the cluster that the tree gives. -/
theorem tree_agrees_with_paths {tree dir : Dir} {cluster : UInt32} {names : List String}
    {later : Session} (h : (volume.tree.perform session).1 = .ok tree)
    (hdescends : Survey.Descends (fun cluster => ((volume.readDir cluster).perform session).1) Finds
      tree volume.rootCluster names dir cluster)
    (hlater : later.device.medium = session.device.medium) :
    ∃ entries listed,
      ((volume.readDir cluster).perform later).1 = .ok entries ∧
      ((volume.listDir (Path.ofNames names)).perform later).1 = .ok listed ∧
      (listed.filter fun entry => !entry.isDirectory).map Walk.fileOf = dir.files ∧
      (listed.filter fun entry => entry.isDirectory).map (·.name) = dir.dirs.map (·.name) ∧
      ∀ (i : Nat) (file : File) (entry : Entry), dir.files[i]? = some file →
        (listed.filter fun entry => !entry.isDirectory)[i]? = some entry →
        Finds entries file.name entry →
          let path := Path.ofNames (names ++ [file.name])
          (∃ found, ((volume.lookup path).perform later).1 = .ok found ∧
            Walk.fileOf found = file) ∧
          ∀ content, ((volume.fileContent path).perform later).1 = .ok content →
            content.length = file.size.toNat := by
  have hsurvey : ∃ survey, ((volume.survey .standard volume.rootCluster).perform session).1 =
      .ok survey ∧ survey.root = tree := by
    obtain ⟨survey, later, hsurvey, h⟩ := Access.exists_of_perform_bind_eq_ok h
    exact ⟨survey, by rw [hsurvey], Except.ok.inj h⟩
  obtain ⟨survey, hsurvey, rfl⟩ := hsurvey
  obtain ⟨clusters, haccounts, -⟩ := Survey.accounts_below_abort (below_of_survey hsurvey)
  obtain ⟨hnames, here, hfollows, hdir, rfl⟩ := follows_of_descends hdescends haccounts
  obtain ⟨task, _, haccountsHere, hcluster, -⟩ := hdescends.accounts haccounts
  cases haccountsHere with
  | @read entries files dirs _ _ _ hread hfates =>
      rw [hcluster] at hread
      have hentries := (gives_readDir_of_ok hread later hlater).1
      have hlisted := (hfollows.gives_listDir hnames hdir hread later hlater).1
      refine ⟨entries, _, hentries, hlisted, ?_, ?_, ?_⟩
      · rw [← Survey.filesOf_eq_map_filter, ← hfates.files_eq]
      · rw [← Survey.dirsOf_eq_filter, ← hfates.names_eq rfl]
      · intro i file entry hfile hentry hfinds path
        have hfileOf : Walk.fileOf entry = file := by
          rw [hfates.files_eq, Survey.filesOf_eq_map_filter, List.getElem?_map, hentry] at hfile
          exact Option.some.inj hfile
        have hnotDir : ¬ entry.isDirectory := by
          simpa using (List.mem_filter.mp (List.mem_of_getElem? hentry)).2
        have hlookup : ((volume.lookup path).perform later).1 = .ok entry :=
          (hfollows.gives_lookup_file hnames hdir hread hfinds hnotDir later hlater).1
        refine ⟨⟨entry, hlookup, hfileOf⟩, fun content hcontent => ?_⟩
        rw [length_fileContent hlookup hcontent, ← hfileOf]
        rfl

/-- The label of the specimen goes by the name of a directory and comes before it, but is passed
over. -/
theorem tree_agrees_with_paths_specimen :
    let session : Session := .start (.ofImage Specimen.sound 256)
    let a : Dir := ⟨"A", [⟨"E", 1, 7⟩], [⟨"F", [], []⟩]⟩
    (Specimen.volume.tree.perform session).1 = .ok Specimen.tree ∧
      Survey.Descends (fun cluster => ((Specimen.volume.readDir cluster).perform session).1) Finds
        Specimen.tree 2 ["A"] a 3 ∧
      ∃ listed found, ((Specimen.volume.listDir "/A").perform session).1 = .ok listed ∧
        (listed.filter fun entry => !entry.isDirectory).map Walk.fileOf = a.files ∧
        (listed.filter fun entry => entry.isDirectory).map (·.name) = ["F"] ∧
        ((Specimen.volume.lookup "/A/E").perform session).1 = .ok found ∧
        Walk.fileOf found = ⟨"E", 1, 7⟩ := by
  intro session a
  have htree : (Specimen.volume.tree.perform session).1 = .ok Specimen.tree :=
    eq_ok_of_toOption_map Dir.eq_of_outline_eq (by decide +kernel)
  have hfinds : Finds Specimen.rootEntries "A" ⟨"A", "A", ⟨0x10⟩, 0, 3⟩ :=
    ⟨by decide, select?_eq_some_iff.mp (by decide +kernel)⟩
  have hdescends : Survey.Descends
      (fun cluster => ((Specimen.volume.readDir cluster).perform session).1) Finds
      Specimen.tree 2 ["A"] a 3 :=
    Survey.descends_specimen hfinds
  obtain ⟨entries, listed, hentries, hlisted, hfiles, hdirs, hlookup⟩ :=
    tree_agrees_with_paths htree hdescends (Eq.refl session.device.medium)
  have hlist : listed = [⟨"F", "F", ⟨0x10⟩, 0, 5⟩, ⟨"E", "E", ⟨0x20⟩, 1, 7⟩] :=
    Except.ok.inj (hlisted.symm.trans (eq_ok_of_toOption (by decide +kernel)))
  have hbelow : entries = [⟨".", ".", ⟨0x10⟩, 0, 3⟩, ⟨"F", "F", ⟨0x10⟩, 0, 5⟩,
      ⟨"E", "E", ⟨0x20⟩, 1, 7⟩] :=
    Except.ok.inj (hentries.symm.trans (eq_ok_of_toOption (by decide +kernel)))
  have hfile : Finds entries "E" ⟨"E", "E", ⟨0x20⟩, 1, 7⟩ := by
    rw [hbelow]
    exact ⟨by decide, select?_eq_some_iff.mp (by decide +kernel)⟩
  obtain ⟨⟨found, hfound, hsame⟩, -⟩ := hlookup 0 ⟨"E", 1, 7⟩ _ rfl (by rw [hlist]; rfl) hfile
  exact ⟨htree, hdescends, listed, found, hlisted, hfiles, hdirs, hfound, hsame⟩

end Volume

end Fat32
