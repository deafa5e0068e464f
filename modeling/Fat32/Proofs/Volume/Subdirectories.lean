import Fat32.Proofs.Directory.Root
import Fat32.Proofs.Tree.Paths

/-!
# Listing a subdirectory

The path of a directory with the name of one in it leads to that one, if its entry is the first
that answers to the name. What is listed there is what its cluster holds. Cluster 0 makes an
exception: the entry of a parent gives it for the root, but any other entry that does so is taken
for the root as well. A tree has no such rule and cannot be read from there.
-/

namespace Fat32

namespace Volume

variable {volume : Volume} {session : Session}

theorem treeAt_of_error {cluster : UInt32} {error : Error}
    (h : ((volume.readDir cluster).perform session).1 = .error error) :
    ((volume.treeAt cluster).perform session).1 = .error error := by
  have hgives := volume.gives_survey session (show Survey.Options.standard.deadline = none from rfl)
    cluster
  rw [Walk.below_of_error _ h] at hgives
  exact hgives.error_bind.perform

theorem firstCluster_resolve {entry : Entry} (hdir : entry.isDirectory) :
    (volume.resolve entry).firstCluster =
      if entry.firstCluster = 0 then volume.rootCluster else entry.firstCluster := by
  by_cases hzero : entry.firstCluster = 0 <;> simp [resolve, hdir, hzero]

theorem isDirectory_resolve (volume : Volume) (entry : Entry) :
    (volume.resolve entry).isDirectory = entry.isDirectory := by
  rw [resolve]
  split <;> rfl

theorem Follows.join {path name : String} {here entry : Entry} {entries : List Entry}
    (h : volume.Follows session (Path.components path) here) (hdir : here.isDirectory)
    (hread : ((volume.readDir here.firstCluster).perform session).1 = .ok entries)
    (hfinds : Finds entries name entry) :
    volume.Follows session (Path.components (Path.join path name)) (volume.resolve entry) := by
  rw [Path.components_join hfinds.1]
  exact h.concat hdir hread hfinds

theorem exists_of_listDir {path : String} {listed : List Entry}
    (h : ((volume.listDir path).perform session).1 = .ok listed) :
    ∃ here entries, ((volume.lookup path).perform session).1 = .ok here ∧ here.isDirectory ∧
      ((volume.readDir here.firstCluster).perform session).1 = .ok entries ∧
      listed = entries.filter fun entry => !entry.isHidden := by
  obtain ⟨here, later, hlookup, hrest⟩ := Access.exists_of_perform_bind_eq_ok h
  have hhere : ((volume.lookup path).perform session).1 = .ok here := by rw [hlookup]
  have hfollows := Follows.of_lookup hhere
  by_cases hdir : here.isDirectory
  · have hlist := hfollows.gives_listDir_of_components hdir
    rw [hlist.perform] at h
    cases hread : ((volume.readDir here.firstCluster).perform session).1 with
    | error error =>
        rw [hread] at h
        contradiction
    | ok entries =>
        rw [hread] at h
        exact ⟨here, entries, hhere, hdir, hread, (Except.ok.inj h).symm⟩
  · simp [hdir] at hrest

/-- In a directory that can be listed, a subdirectory that goes first by its own name is listed by
that name under the path. The listing shows what the cluster of its entry holds, or fails as
reading there does; but for cluster 0 it is that of the root. Where the cluster is no data cluster,
no tree can be read, and only this exception can make the listing succeed. -/
theorem listDir_join {path : String} {listed : List Entry}
    (h : ((volume.listDir path).perform session).1 = .ok listed) :
    ∃ here entries, ((volume.lookup path).perform session).1 = .ok here ∧
      ((volume.readDir here.firstCluster).perform session).1 = .ok entries ∧
      (∀ entry, entry ∈ listed ↔ entry ∈ entries ∧ ¬ entry.isDot ∧ ¬ entry.isVolumeLabel) ∧
      ∀ entry ∈ listed, entry.isDirectory → Finds entries entry.name entry →
        ∀ later : Session, later.device.medium = session.device.medium →
          let cluster :=
            if entry.firstCluster = 0 then volume.rootCluster else entry.firstCluster
          let listing := ((volume.listDir (Path.join path entry.name)).perform later).1
          listing = ((volume.readDir cluster).perform later).1.map
            (List.filter fun entry => !entry.isHidden) ∧
          (¬ volume.isDataCluster entry.firstCluster →
            ((volume.treeAt entry.firstCluster).perform later).1 =
              .error (.invalidCluster entry.firstCluster) ∧
            (entry.firstCluster ≠ 0 → listing = .error (.invalidCluster entry.firstCluster))) := by
  obtain ⟨here, entries, hlookup, hdirHere, hread, rfl⟩ := exists_of_listDir h
  refine ⟨here, entries, hlookup, hread, fun entry => ?_, ?_⟩
  · simp [Entry.isHidden]
  intro entry _ hdir hfinds later hlater cluster listing
  have hfollows := (Follows.of_lookup hlookup).join hdirHere hread hfinds
  have hlisting : listing = ((volume.readDir cluster).perform later).1.map
      (List.filter fun entry => !entry.isHidden) := by
    have hgives := hfollows.gives_listDir_of_components (by rwa [isDirectory_resolve])
    rw [firstCluster_resolve hdir] at hgives
    have hreadLater := (volume.gives_readDirectory_readDir session "" cluster later hlater).1
    exact (hgives later hlater).1.trans (congrArg (Except.map _) hreadLater.symm)
  refine ⟨hlisting, fun hdata => ?_⟩
  have hinvalid : ((volume.readDir entry.firstCluster).perform later).1 =
      .error (.invalidCluster entry.firstCluster) :=
    readDir_of_not_data hdata
  refine ⟨treeAt_of_error hinvalid, fun hzero => ?_⟩
  rw [hlisting, show cluster = entry.firstCluster from if_neg hzero, hinvalid]
  rfl

end Volume

namespace Specimen

/-- A volume whose root has a directory with cluster 0, and one with a cluster of its own. -/
def astray : Image :=
  .ofParts (18 * 256) (bootParts ++ hintParts ++ tableParts ++
    [(1536, slot 0x41 0x10 0 0 ++ slot 0x42 0x10 3 0), (2048, slot 0x45 0x20 7 1)])

def astrayEntries : List Entry := [⟨"A", "A", ⟨0x10⟩, 0, 0⟩, ⟨"B", "B", ⟨0x10⟩, 0, 3⟩]

theorem mount_astray : (mount.perform (.start (.ofImage astray 256))).1 =
    .ok ⟨volume, some ⟨some 3, some 6⟩⟩ :=
  eq_ok_of_toOption (by decide +kernel)

theorem listDir_astray :
    ((volume.listDir "").perform (.start (.ofImage astray 256))).1 = .ok astrayEntries :=
  eq_ok_of_toOption (by decide +kernel)

theorem lookup_astray :
    ((volume.lookup "").perform (.start (.ofImage astray 256))).1 = .ok volume.rootEntry :=
  eq_ok_of_toOption (by decide +kernel)

theorem readDir_astray :
    ((volume.readDir 2).perform (.start (.ofImage astray 256))).1 = .ok astrayEntries :=
  eq_ok_of_toOption (by decide +kernel)

theorem finds_astray : Volume.Finds astrayEntries "A" ⟨"A", "A", ⟨0x10⟩, 0, 0⟩ :=
  ⟨by decide, Volume.select?_eq_some_iff.mp (by decide +kernel)⟩

/-- The directory with cluster 0 lists the root again, though no tree can be read from there. -/
theorem listDir_join_astray :
    let session := Session.start (.ofImage astray 256)
    ((volume.listDir "").perform session).1 = .ok astrayEntries ∧
      ((volume.listDir "/A").perform session).1 = .ok astrayEntries ∧
      ((volume.treeAt 0).perform session).1 = .error (.invalidCluster 0) ∧
      ((volume.listDir "/B").perform session).1 =
        ((volume.readDir 3).perform session).1.map (List.filter fun entry => !entry.isHidden) := by
  intro session
  obtain ⟨here, entries, hlookup, hread, -, hjoin⟩ := Volume.listDir_join listDir_astray
  obtain rfl := Except.ok.inj (hlookup.symm.trans lookup_astray)
  obtain rfl := Except.ok.inj (hread.symm.trans readDir_astray)
  obtain ⟨hroot, hnone⟩ := hjoin ⟨"A", "A", ⟨0x10⟩, 0, 0⟩ (by decide) (by decide)
    finds_astray session rfl
  have hfinds : Volume.Finds astrayEntries "B" ⟨"B", "B", ⟨0x10⟩, 0, 3⟩ :=
    ⟨by decide, Volume.select?_eq_some_iff.mp (by decide +kernel)⟩
  obtain ⟨hown, -⟩ := hjoin ⟨"B", "B", ⟨0x10⟩, 0, 3⟩ (by decide) (by decide) hfinds session rfl
  refine ⟨listDir_astray, hroot.trans ?_, (hnone (by decide)).1, hown⟩
  exact congrArg (Except.map _) readDir_astray

end Specimen

/-- A directory cannot be counted on to list what its own cluster holds. -/
theorem Volume.not_forall_listDir_join :
    ¬ ∀ (session : Session) (mounted : Mounted) (path : String) (here entry : Entry)
        (entries listed : List Entry), (mount.perform session).1 = .ok mounted →
      ((mounted.volume.listDir path).perform session).1 = .ok listed →
      ((mounted.volume.lookup path).perform session).1 = .ok here →
      ((mounted.volume.readDir here.firstCluster).perform session).1 = .ok entries →
      entry ∈ listed → entry.isDirectory → Finds entries entry.name entry →
      ((mounted.volume.listDir (Path.join path entry.name)).perform session).1 =
        ((mounted.volume.readDir entry.firstCluster).perform session).1.map
          (List.filter fun entry => !entry.isHidden) := by
  intro h
  have hlisting := h _ _ "" _ ⟨"A", "A", ⟨0x10⟩, 0, 0⟩ _ _ Specimen.mount_astray
    Specimen.listDir_astray Specimen.lookup_astray Specimen.readDir_astray (by decide) (by decide)
    Specimen.finds_astray
  exact absurd (congrArg Except.isOk hlisting) (by decide +kernel)

end Fat32
