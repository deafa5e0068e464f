import Fat32.Proofs.Tree.Descent
import Fat32.Proofs.Tree.Finding
import Fat32.Volume.Mount

/-!
# Reported paths

Each directory that a survey leaves out is one of the entries of a directory in the tree. The path
under which it is reported is written on the way down, child by child, while a listing of the tree
joins the names again. As a child drops all slashes at the end of the path above it, and not only
that of the root, the two agree just when no name on the way down is empty or ends in a slash.
-/

namespace Fat32

namespace Survey

/-- What was left out of a tree: the directory of `entry`, which is an entry of the directory `dir`
in the tree. From the root, directories of the given names lead down to `dir`. -/
structure Omission where
  skipped : Skipped
  names : List String
  dir : Dir
  entry : Entry

section

variable (read : UInt32 → Except Error (List Entry))

/-- Where the directories left out come from, if directories of the given names lead down to `dir`.
One by one, its entries became the directories in it, or were left out of it. The directories left
out of the ones in it were entries there. -/
inductive Traces : List String → Dir → List Entry → List Dir → List Omission → Prop
  | nil {names : List String} {dir : Dir} : Traces names dir [] [] []
  | hidden {names : List String} {dir : Dir} {entry : Entry} {entries : List Entry}
      {dirs : List Dir} {omitted : List Omission} :
      entry.isDot ∨ entry.isVolumeLabel → Traces names dir entries dirs omitted →
      Traces names dir (entry :: entries) dirs omitted
  | file {names : List String} {dir : Dir} {entry : Entry} {entries : List Entry}
      {dirs : List Dir} {omitted : List Omission} :
      ¬ (entry.isDot ∨ entry.isVolumeLabel) → ¬ entry.isDirectory →
      Traces names dir entries dirs omitted → Traces names dir (entry :: entries) dirs omitted
  | dir {names : List String} {dir child : Dir} {entry : Entry} {entries below : List Entry}
      {dirs : List Dir} {omitted omittedBelow : List Omission} :
      ¬ (entry.isDot ∨ entry.isVolumeLabel) → entry.isDirectory → child.name = entry.name →
      read entry.firstCluster = .ok below → child.files = filesOf below →
      Traces (names ++ [entry.name]) child below child.dirs omittedBelow →
      Traces names dir entries dirs omitted →
      Traces names dir (entry :: entries) (child :: dirs) (omittedBelow ++ omitted)
  | leftOut {names : List String} {dir : Dir} {entry : Entry} {entries : List Entry}
      {dirs : List Dir} {omitted : List Omission} {skipped : Skipped} :
      ¬ (entry.isDot ∨ entry.isVolumeLabel) → entry.isDirectory →
      Traces names dir entries dirs omitted →
      Traces names dir (entry :: entries) dirs (⟨skipped, names, dir, entry⟩ :: omitted)

inductive TracesAll (cluster : UInt32) (survey : Survey) : List Omission → Prop
  | read {entries : List Entry} {omitted : List Omission} :
      read cluster = .ok entries → survey.root.files = filesOf entries →
      Traces read [] survey.root entries survey.root.dirs omitted →
      survey.skipped = omitted.map (·.skipped) → TracesAll cluster survey omitted

end

variable {read : UInt32 → Except Error (List Entry)} {maxDepth : Nat}

/-! ## From accounts to traces -/

/-- The path under which the directory is reported was written child by child. -/
def Omission.IsReported (omission : Omission) : Prop :=
  omission.skipped.path = (omission.names ++ [omission.entry.name]).foldl Path.child "/"

theorem Fates.exists_traces {task : Task} {entries : List Entry} {files : List File}
    {dirs : List Dir} {clusters : List UInt32} {skipped : List Skipped}
    (h : Fates read maxDepth task entries files dirs clusters skipped) {names : List String}
    (hpath : task.path = names.foldl Path.child "/") (dir : Dir) :
    ∃ omitted, Traces read names dir entries dirs omitted ∧
      skipped = omitted.map (·.skipped) ∧ ∀ omission ∈ omitted, omission.IsReported := by
  -- the names on the way down keep spelling the path of the task
  induction h generalizing names dir with
  | nil => exact ⟨[], .nil, rfl, List.forall_mem_nil _⟩
  | hidden hhidden _ ih =>
      obtain ⟨omitted, htraces, hrest⟩ := ih hpath dir
      exact ⟨omitted, .hidden hhidden htraces, hrest⟩
  | file hshown hfile _ ih =>
      obtain ⟨omitted, htraces, hrest⟩ := ih hpath dir
      exact ⟨omitted, .file hshown hfile htraces, hrest⟩
  | @dir task entry _ below _ filesBelow _ dirsBelow _ _ _ _ hshown hdir _ hread hbelow _
      ihbelow ih =>
      have hchild : (task.child entry).path = (names ++ [entry.name]).foldl Path.child "/" := by
        rw [List.foldl_append, ← hpath]
        rfl
      obtain ⟨omittedBelow, htracesBelow, rfl, hreportedBelow⟩ :=
        ihbelow hchild ⟨entry.name, filesBelow, dirsBelow⟩
      obtain ⟨omitted, htraces, rfl, hreported⟩ := ih hpath dir
      refine ⟨omittedBelow ++ omitted, ?_, List.map_append.symm,
        List.forall_mem_append.mpr ⟨hreportedBelow, hreported⟩⟩
      exact .dir hshown hdir rfl hread hbelow.files_eq htracesBelow htraces
  | @skipped task entry _ _ _ _ _ error hshown hdir _ ih =>
      obtain ⟨omitted, htraces, rfl, hreported⟩ := ih hpath dir
      refine ⟨⟨⟨(task.child entry).path, error⟩, names, dir, entry⟩ :: omitted,
        .leftOut hshown hdir htraces, rfl, List.forall_mem_cons.mpr ⟨?_, hreported⟩⟩
      rw [Omission.IsReported, List.foldl_append, ← hpath]
      rfl

/-! ## Where the tree has the directories -/

/-- The directory `dir` is the root, or is listed under the path that joins the names. -/
def Omission.IsListed (omission : Omission) (root : Dir) : Prop :=
  omission.names = [] ∧ omission.dir = root ∨
    ⟨omission.names.foldl Path.join "", omission.names.length - 1, .dir omission.dir⟩ ∈
      root.listing

theorem Traces.mem_listedAll {names : List String} {dir : Dir} {entries : List Entry}
    {dirs : List Dir} {omitted : List Omission} (h : Traces read names dir entries dirs omitted) :
    ∀ omission ∈ omitted, omission.names = names ∧ omission.dir = dir ∨
      ⟨omission.names.foldl Path.join "", omission.names.length - 1, .dir omission.dir⟩ ∈
        Dir.listedAll (names.foldl Path.join "") names.length dirs := by
  induction h with
  | nil => exact List.forall_mem_nil _
  | hidden _ _ ih => exact ih
  | file _ _ _ ih => exact ih
  | @dir names dir child entry _ _ dirs _ _ _ _ hname _ _ _ _ ihbelow ih =>
      have hjoin : (names ++ [entry.name]).foldl Path.join "" =
          Path.join (names.foldl Path.join "") child.name := by
        rw [List.foldl_append, hname]
        rfl
      rw [Dir.listedAll]
      intro omission homission
      rcases List.mem_append.mp homission with hmem | hmem
      · right
        rcases ihbelow omission hmem with ⟨hnames, hdir⟩ | hlisted
        · rw [hnames, hdir, hjoin, List.length_append]
          exact List.mem_cons_self
        · rw [hjoin, List.length_append] at hlisted
          exact List.mem_cons_of_mem _
            (List.mem_append_left _ (Dir.mem_listedAt_of_mem_listedAll hlisted))
      · exact (ih omission hmem).imp_right fun hlisted =>
          List.mem_cons_of_mem _ (List.mem_append_right _ hlisted)
  | leftOut _ _ _ ih => exact List.forall_mem_cons.mpr ⟨.inl ⟨rfl, rfl⟩, ih⟩

end Survey

/-- Each directory that a survey leaves out is an entry of a directory in its tree, one to one. Its
reported path is that entry under the path of that directory in the listing, which for the root is
empty, if and only if no name on the way down is empty or ends in a slash. -/
theorem Volume.skipped_reported {volume : Volume} {session : Session} {options : Survey.Options}
    {cluster : UInt32} {survey : Survey}
    (h : ((volume.survey options cluster).perform session).1 = .ok survey) :
    ∃ omitted, Survey.TracesAll (fun cluster => ((volume.readDir cluster).perform session).1)
        cluster survey omitted ∧
      ∀ omission ∈ omitted, omission.IsListed survey.root ∧ omission.IsReported ∧
        (omission.skipped.path =
            Path.join (omission.names.foldl Path.join "") omission.entry.name ↔
          ∀ name ∈ omission.names, Path.IsTrimmed name) := by
  obtain ⟨clusters, haccounts, -⟩ := Survey.accounts_below (below_of_survey h)
  obtain ⟨root, skipped⟩ := survey
  cases haccounts with
  | @read entries files dirs _ _ _ hread hfates =>
      have hroot : (Survey.Task.root cluster).path = [].foldl Path.child "/" := rfl
      obtain ⟨omitted, htraces, hskipped, hreported⟩ :=
        hfates.exists_traces hroot ⟨"/", files, dirs⟩
      refine ⟨omitted, .read hread hfates.files_eq htraces hskipped, fun omission homission => ?_⟩
      have hpath := hreported omission homission
      refine ⟨?_, hpath, ?_⟩
      · refine (htraces.mem_listedAll omission homission).imp_right fun hlisted => ?_
        rw [Dir.listing_eq]
        exact Dir.mem_listedAt_of_mem_listedAll hlisted
      · rw [hpath]
        exact Path.foldl_child_eq_join_iff omission.names omission.entry.name

namespace Specimen

def nameless : Image :=
  .ofParts (18 * 256) (bootParts ++ hintParts ++ tableParts ++
    [(1536, slot 0x20 0x10 3 0 ++ slot 0x42 0x10 5 0), (2048, slot 0x42 0x10 0 0)])

def namelessTree : Dir := ⟨"/", [], [⟨"", [], []⟩, ⟨"B", [], []⟩]⟩

theorem mount_nameless : (mount.perform (.start (.ofImage nameless 256))).1 =
    .ok ⟨volume, some ⟨some 3, some 6⟩⟩ :=
  eq_ok_of_toOption (by decide +kernel)

theorem survey_nameless :
    ((volume.survey ⟨2, .skip, none⟩ 2).perform (.start (.ofImage nameless 256))).1 =
      .ok ⟨namelessTree, [⟨"/B", .invalidCluster 0⟩]⟩ :=
  eq_ok_of_toOption_map Survey.eq_of_outline_eq (by decide +kernel)

/-- The directory left out is reported under the path of another one that is in the tree. -/
theorem skipped_reported_nameless :
    let session : Session := .start (.ofImage nameless 256)
    ((volume.survey ⟨2, .skip, none⟩ 2).perform session).1 =
        .ok ⟨namelessTree, [⟨"/B", .invalidCluster 0⟩]⟩ ∧
      namelessTree.listing.map (·.path) = ["/", "/B"] ∧
      ∃ omission, Survey.TracesAll (fun cluster => ((volume.readDir cluster).perform session).1) 2
          ⟨namelessTree, [⟨"/B", .invalidCluster 0⟩]⟩ [omission] ∧
        omission.IsListed namelessTree ∧ omission.IsReported := by
  intro session
  obtain ⟨omitted, htraces, homitted⟩ := Volume.skipped_reported survey_nameless
  refine ⟨survey_nameless, by decide, ?_⟩
  have hskipped : [⟨"/B", .invalidCluster 0⟩] = omitted.map (·.skipped) := by
    cases htraces with
    | read _ _ _ hskipped => exact hskipped
  obtain ⟨omission, rfl⟩ : ∃ omission, omitted = [omission] := by
    rw [← List.length_eq_one_iff, ← List.length_map (·.skipped), ← hskipped]
    rfl
  obtain ⟨hlisted, hreported, -⟩ := homitted omission (List.mem_singleton_self _)
  exact ⟨omission, htraces, hlisted, hreported⟩

end Specimen

/-- What is left out cannot be counted on to be reported under the path of its directory. -/
theorem Survey.not_forall_reported_joined :
    ¬ ∀ (session : Session) (mounted : Mounted) (maxDepth : Nat) (cluster : UInt32)
        (survey : Survey) (omitted : List Omission), (mount.perform session).1 = .ok mounted →
      ((mounted.volume.survey ⟨maxDepth, .skip, none⟩ cluster).perform session).1 = .ok survey →
      TracesAll (fun cluster => ((mounted.volume.readDir cluster).perform session).1) cluster
        survey omitted →
      ∀ omission ∈ omitted, omission.skipped.path =
        Path.join (omission.names.foldl Path.join "") omission.entry.name := by
  intro h
  let session : Session := .start (.ofImage Specimen.nameless 256)
  let read (cluster : UInt32) := ((Specimen.volume.readDir cluster).perform session).1
  let nameless : Entry := ⟨"", "", ⟨0x10⟩, 0, 3⟩
  let kept : Entry := ⟨"B", "B", ⟨0x10⟩, 0, 5⟩
  let lost : Entry := ⟨"B", "B", ⟨0x10⟩, 0, 0⟩
  let omission : Omission := ⟨⟨"/B", .invalidCluster 0⟩, [""], ⟨"", [], []⟩, lost⟩
  have hroot : read 2 = .ok [nameless, kept] := eq_ok_of_toOption (by decide +kernel)
  have hnameless : read 3 = .ok [lost] := eq_ok_of_toOption (by decide +kernel)
  have hkept : read 5 = .ok [] := eq_ok_of_toOption (by decide +kernel)
  have hbelow : Traces read [""] ⟨"", [], []⟩ [lost] [] [omission] :=
    .leftOut (by decide) (by decide) .nil
  have htraces : Traces read [] Specimen.namelessTree [nameless, kept] Specimen.namelessTree.dirs
      ([omission] ++ ([] ++ [])) :=
    .dir (by decide) (by decide) rfl hnameless (by decide) hbelow
      (.dir (by decide) (by decide) rfl hkept rfl .nil .nil)
  have hjoined := h session _ 2 2 _ [omission] Specimen.mount_nameless Specimen.survey_nameless
    (.read hroot (by decide) htraces rfl) omission (List.mem_singleton_self _)
  exact absurd hjoined (by decide)

end Fat32
