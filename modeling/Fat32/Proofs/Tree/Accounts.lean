import Fat32.Proofs.Specimen
import Fat32.Proofs.Tree.CallingOff
import Fat32.Proofs.Tree.Simulation

/-!
# What a tree accounts for

A tree that a survey ends with stands for the directories that were read: each visible entry of
such a directory is one of its files, one of its directories, or was left out. No cluster stands
for two of these directories, so a tree has no more directories than the volume has clusters.
-/

namespace Fat32

theorem Entry.isHidden_iff (entry : Entry) :
    entry.isHidden = true ↔ entry.isDot ∨ entry.isVolumeLabel := by
  rw [isHidden, Bool.or_eq_true]

theorem Entry.isHidden_eq_false_iff (entry : Entry) :
    entry.isHidden = false ↔ ¬ (entry.isDot ∨ entry.isVolumeLabel) := by
  rw [← entry.isHidden_iff, Bool.not_eq_true]

namespace Survey

section

variable (read : UInt32 → Except Error (List Entry)) (maxDepth : Nat)

/-- What became of the entries of the directory of a task, one by one: the files and directories
that they became, the clusters of these directories and of all below them, and what was left out
at any depth, each in the order of the tree. -/
inductive Fates : Task → List Entry → List File → List Dir → List UInt32 → List Skipped → Prop
  | nil {task : Task} : Fates task [] [] [] [] []
  | hidden {task : Task} {entry : Entry} {entries : List Entry} {files : List File}
      {dirs : List Dir} {clusters : List UInt32} {skipped : List Skipped} :
      entry.isDot ∨ entry.isVolumeLabel →
      Fates task entries files dirs clusters skipped →
      Fates task (entry :: entries) files dirs clusters skipped
  | file {task : Task} {entry : Entry} {entries : List Entry} {files : List File}
      {dirs : List Dir} {clusters : List UInt32} {skipped : List Skipped} :
      ¬ (entry.isDot ∨ entry.isVolumeLabel) → ¬ entry.isDirectory →
      Fates task entries files dirs clusters skipped →
      Fates task (entry :: entries) (⟨entry.name, entry.size, entry.firstCluster⟩ :: files) dirs
        clusters skipped
  | dir {task : Task} {entry : Entry} {entries below : List Entry} {files filesBelow : List File}
      {dirs dirsBelow : List Dir} {clusters clustersBelow : List UInt32}
      {skipped skippedBelow : List Skipped} :
      ¬ (entry.isDot ∨ entry.isVolumeLabel) → entry.isDirectory →
      (task.child entry).depth ≤ maxDepth → read entry.firstCluster = .ok below →
      Fates (task.child entry) below filesBelow dirsBelow clustersBelow skippedBelow →
      Fates task entries files dirs clusters skipped →
      Fates task (entry :: entries) files (⟨entry.name, filesBelow, dirsBelow⟩ :: dirs)
        (entry.firstCluster :: clustersBelow ++ clusters) (skippedBelow ++ skipped)
  | skipped {task : Task} {entry : Entry} {entries : List Entry} {files : List File}
      {dirs : List Dir} {clusters : List UInt32} {skipped : List Skipped} {error : Error} :
      ¬ (entry.isDot ∨ entry.isVolumeLabel) → entry.isDirectory →
      Fates task entries files dirs clusters skipped →
      Fates task (entry :: entries) files dirs clusters
        (⟨(task.child entry).path, error⟩ :: skipped)

/-- The directory of a task was read and became `dir`. The clusters are its own and those of all
directories below it in the tree. -/
inductive Accounts (task : Task) : Dir → List UInt32 → List Skipped → Prop
  | read {entries : List Entry} {files : List File} {dirs : List Dir} {clusters : List UInt32}
      {skipped : List Skipped} :
      task.depth ≤ maxDepth → read task.cluster = .ok entries →
      Fates read maxDepth task entries files dirs clusters skipped →
      Accounts task ⟨task.name, files, dirs⟩ (task.cluster :: clusters) skipped

end

/-! ## Entries one by one -/

section

variable {entry : Entry} {entries : List Entry}

theorem filesOf_cons_of_hidden (h : entry.isDot ∨ entry.isVolumeLabel) :
    filesOf (entry :: entries) = filesOf entries := by
  simp [filesOf, entry.isHidden_iff.mpr h]

theorem dirsOf_cons_of_hidden (h : entry.isDot ∨ entry.isVolumeLabel) :
    dirsOf (entry :: entries) = dirsOf entries := by
  simp [dirsOf, entry.isHidden_iff.mpr h]

theorem filesOf_cons_of_file (h : ¬ (entry.isDot ∨ entry.isVolumeLabel))
    (hfile : ¬ entry.isDirectory) : filesOf (entry :: entries) =
      ⟨entry.name, entry.size, entry.firstCluster⟩ :: filesOf entries := by
  simp [filesOf, entry.isHidden_eq_false_iff.mpr h, hfile]

theorem filesOf_cons_of_dir (hdir : entry.isDirectory) :
    filesOf (entry :: entries) = filesOf entries := by
  simp [filesOf, hdir]

theorem dirsOf_cons_of_file (hfile : ¬ entry.isDirectory) :
    dirsOf (entry :: entries) = dirsOf entries := by
  simp [dirsOf, hfile]

theorem dirsOf_cons_of_dir (h : ¬ (entry.isDot ∨ entry.isVolumeLabel))
    (hdir : entry.isDirectory) : dirsOf (entry :: entries) = entry :: dirsOf entries := by
  simp [dirsOf, entry.isHidden_eq_false_iff.mpr h, hdir]

end

variable {read : UInt32 → Except Error (List Entry)} {maxDepth : Nat} {task : Task}

/-! ## What follows for the tree -/

namespace Fates

variable {entries : List Entry} {files : List File} {dirs : List Dir} {clusters : List UInt32}
  {skipped : List Skipped}

theorem length_eq (h : Fates read maxDepth task entries files dirs clusters skipped) :
    clusters.length = Dir.dirCountAll dirs := by
  induction h with
  | nil => rfl
  | hidden _ _ ih => exact ih
  | file _ _ _ ih => exact ih
  | dir _ _ _ _ _ _ ihbelow ih =>
      rw [List.length_append, List.length_cons, ihbelow, ih, Dir.dirCountAll, Dir.dirCount]
      omega
  | skipped _ _ _ ih => exact ih

theorem exists_read (h : Fates read maxDepth task entries files dirs clusters skipped) :
    ∀ cluster ∈ clusters, ∃ entries, read cluster = .ok entries := by
  induction h with
  | nil => simp
  | hidden _ _ ih => exact ih
  | file _ _ _ ih => exact ih
  | dir _ _ _ hread _ _ ihbelow ih =>
      intro cluster hcluster
      rcases List.mem_cons.mp hcluster with rfl | hcluster
      · exact ⟨_, hread⟩
      · exact (List.mem_append.mp hcluster).elim (ihbelow cluster) (ih cluster)
  | skipped _ _ _ ih => exact ih

theorem depth_le (h : Fates read maxDepth task entries files dirs clusters skipped) :
    ∀ line ∈ Dir.outlineAll (task.depth + 1) dirs, ∀ name, line.item = .dir name →
      line.depth ≤ maxDepth := by
  induction h with
  | nil => simp [Dir.outlineAll]
  | hidden _ _ ih => exact ih
  | file _ _ _ ih => exact ih
  | @dir task entry _ _ _ _ _ _ _ _ _ _ _ _ hdepth _ _ _ ihbelow ih =>
      intro line hline name hname
      rw [Walk.depth_child] at hdepth ihbelow
      simp only [Dir.outlineAll, Dir.outlineAt, List.mem_append, List.mem_cons, Outline.files,
        List.mem_map] at hline
      obtain (rfl | ⟨file, -, rfl⟩ | hline) | hline := hline
      · exact hdepth
      · contradiction
      · exact ihbelow line hline name hname
      · exact ih line hline name hname
  | skipped _ _ _ ih => exact ih

end Fates

namespace Accounts

variable {dir : Dir} {clusters : List UInt32} {skipped : List Skipped}

theorem length_eq (h : Accounts read maxDepth task dir clusters skipped) :
    clusters.length = dir.dirCount + 1 := by
  cases h with
  | read _ _ hfates => rw [List.length_cons, hfates.length_eq, Dir.dirCount]

theorem exists_read (h : Accounts read maxDepth task dir clusters skipped) :
    ∀ cluster ∈ clusters, ∃ entries, read cluster = .ok entries := by
  cases h with
  | read _ hread hfates => exact List.forall_mem_cons.mpr ⟨⟨_, hread⟩, hfates.exists_read⟩

theorem depth_le (h : Accounts read maxDepth task dir clusters skipped) :
    ∀ line ∈ dir.outlineAt task.depth, ∀ name, line.item = .dir name → line.depth ≤ maxDepth := by
  cases h with
  | read hdepth _ hfates =>
      intro line hline name hname
      simp only [Dir.outlineAt, List.mem_append, List.mem_cons, Outline.files,
        List.mem_map] at hline
      obtain rfl | ⟨file, -, rfl⟩ | hline := hline
      · exact hdepth
      · contradiction
      · exact hfates.depth_le line hline name hname

end Accounts

/-- What became of the directories among some entries settles what became of all of them. -/
theorem Fates.of_dirsOf {entries : List Entry} {dirs : List Dir} {clusters : List UInt32}
    {skipped : List Skipped}
    (h : Fates read maxDepth task (dirsOf entries) [] dirs clusters skipped) :
    Fates read maxDepth task entries (filesOf entries) dirs clusters skipped := by
  induction entries generalizing dirs clusters skipped with
  | nil => exact h
  | cons entry entries ih =>
      by_cases hhidden : entry.isDot ∨ entry.isVolumeLabel
      · rw [dirsOf_cons_of_hidden hhidden] at h
        rw [filesOf_cons_of_hidden hhidden]
        exact .hidden hhidden (ih h)
      by_cases hdir : entry.isDirectory
      · rw [dirsOf_cons_of_dir hhidden hdir] at h
        rw [filesOf_cons_of_dir hdir]
        cases h with
        | hidden hhidden' => exact absurd hhidden' hhidden
        | dir _ _ hdepth hread hbelow hrest =>
            exact .dir hhidden hdir hdepth hread hbelow (ih hrest)
        | skipped _ _ hrest => exact .skipped hhidden hdir (ih hrest)
      · rw [dirsOf_cons_of_file hdir] at h
        rw [filesOf_cons_of_file hhidden hdir]
        exact .file hhidden hdir (ih h)

/-! ## What walks account for -/

structure Newly (before after : Finset UInt32) (clusters : List UInt32) : Prop where
  subset : before ⊆ after
  nodup : clusters.Nodup
  notMem_before : ∀ cluster ∈ clusters, cluster ∉ before
  mem_after : ∀ cluster ∈ clusters, cluster ∈ after

namespace Newly

variable {before between after : Finset UInt32} {clusters others : List UInt32}

theorem nil (before : Finset UInt32) : Newly before before [] :=
  ⟨Finset.Subset.refl _, .nil, by simp, by simp⟩

theorem cons {cluster : UInt32} (hnew : cluster ∉ before)
    (h : Newly (insert cluster before) after clusters) :
    Newly before after (cluster :: clusters) := by
  refine ⟨(Finset.subset_insert _ _).trans h.subset, ?_, ?_, ?_⟩
  · rw [List.nodup_cons]
    exact ⟨fun hmem => h.notMem_before cluster hmem (Finset.mem_insert_self _ _), h.nodup⟩
  · intro c hc
    rcases List.mem_cons.mp hc with rfl | hc
    · exact hnew
    · exact fun hmem => h.notMem_before c hc (Finset.mem_insert_of_mem hmem)
  · intro c hc
    rcases List.mem_cons.mp hc with rfl | hc
    · exact h.subset (Finset.mem_insert_self _ _)
    · exact h.mem_after c hc

theorem append (h : Newly before between clusters) (hothers : Newly between after others) :
    Newly before after (clusters ++ others) := by
  refine ⟨h.subset.trans hothers.subset, ?_, ?_, ?_⟩
  · rw [List.nodup_append]
    refine ⟨h.nodup, hothers.nodup, ?_⟩
    rintro c hc _ hother rfl
    exact hothers.notMem_before c hother (h.mem_after c hc)
  · intro c hc
    rcases List.mem_append.mp hc with hc | hc
    · exact h.notMem_before c hc
    · exact fun hmem => hothers.notMem_before c hc (h.subset hmem)
  · intro c hc
    rcases List.mem_append.mp hc with hc | hc
    · exact hothers.subset (h.mem_after c hc)
    · exact hothers.mem_after c hc

end Newly

inductive Visited (read : UInt32 → Except Error (List Entry)) (maxDepth : Nat) (task : Task)
    (trail after : Walk.Trail) : Option Dir → Prop
  | kept {dir : Dir} {clusters : List UInt32} {skipped : List Skipped} :
      Accounts read maxDepth task dir clusters skipped →
      Newly trail.attempted after.attempted clusters →
      after.skipped = trail.skipped ++ skipped → Visited read maxDepth task trail after (some dir)
  | leftOut {error : Error} : trail.attempted ⊆ after.attempted →
      after.skipped = trail.skipped ++ [⟨task.path, error⟩] →
      Visited read maxDepth task trail after none

theorem visited_giveUp {policy : FailurePolicy} {error : Error} {trail between after : Walk.Trail}
    {dir? : Option Dir} (hattempted : trail.attempted ⊆ between.attempted)
    (hskipped : between.skipped = trail.skipped)
    (h : Walk.giveUp policy task error between = .ok (dir?, after)) :
    Visited read maxDepth task trail after dir? := by
  rw [Walk.giveUp] at h
  split at h
  · obtain ⟨rfl, rfl⟩ := Prod.mk.inj (Except.ok.inj h)
    exact .leftOut hattempted (by rw [hskipped])
  · contradiction

/-- A walk tells of each directory that it visits what became of it. -/
theorem accounts_visit (policy : FailurePolicy) :
    (∀ (task : Task) (trail : Walk.Trail) {dir? : Option Dir} {after : Walk.Trail},
      Walk.visit read maxDepth policy task trail = .ok (dir?, after) →
      Visited read maxDepth task trail after dir?) ∧
    ∀ (task : Task) (entries : List Entry) (trail : Walk.Trail) {dirs : List Dir}
      {after : Walk.Trail}, (∀ entry ∈ entries, entry.isHidden = false ∧ entry.isDirectory) →
      Walk.visitEach read maxDepth policy task entries trail = .ok (dirs, after) →
      ∃ clusters skipped, Fates read maxDepth task entries [] dirs clusters skipped ∧
        Newly trail.attempted after.attempted clusters ∧
        after.skipped = trail.skipped ++ skipped := by
  -- by the recursion of the walk; a set of attempted clusters only grows
  apply Walk.visit.mutual_induct read maxDepth
  case case1 =>
    intro task trail hrefused dir? after h
    rw [Walk.visit, if_pos hrefused] at h
    exact visited_giveUp (Finset.Subset.refl _) rfl h
  case case2 =>
    intro task trail hallowed hattempted dir? after h
    rw [Walk.visit, if_neg hallowed, if_pos hattempted] at h
    exact visited_giveUp (Finset.Subset.refl _) rfl h
  case case3 =>
    intro task trail hallowed hattempted error hread dir? after h
    rw [Walk.visit, if_neg hallowed, if_neg hattempted] at h
    simp only [hread] at h
    refine visited_giveUp ?_ ?_ h
    · exact Finset.subset_insert _ _
    · rfl
  case case4 =>
    intro task trail hallowed hattempted attempted entries hread ih dir? after h
    rw [Walk.visit, if_neg hallowed, if_neg hattempted] at h
    simp only [hread] at h
    obtain ⟨⟨dirs, trail'⟩, heach, h⟩ := exists_of_bind_eq_ok h
    obtain ⟨rfl, rfl⟩ := Prod.mk.inj (Except.ok.inj h)
    have hvisible : ∀ entry ∈ (Walk.kept entries).filter Entry.isDirectory,
        entry.isHidden = false ∧ entry.isDirectory := by
      intro entry hentry
      rw [← dirsOf_eq, dirsOf, List.mem_filter] at hentry
      simpa using hentry.2
    obtain ⟨clusters, skipped, hfates, hnewly, hskipped⟩ := ih hvisible heach
    rw [← dirsOf_eq] at hfates
    rw [← filesOf_eq]
    exact .kept (.read (by omega) hread hfates.of_dirsOf) (hnewly.cons hattempted) hskipped
  case case5 =>
    intro task trail dirs after _ h
    rw [Walk.visitEach] at h
    obtain ⟨rfl, rfl⟩ := Prod.mk.inj (Except.ok.inj h)
    exact ⟨[], [], .nil, .nil _, by simp⟩
  case case6 =>
    intro task trail entry entries ihvisit ihrest dirs after hdirs h
    rw [Walk.visitEach_cons] at h
    obtain ⟨⟨dir?, between⟩, hvisit, h⟩ := exists_of_bind_eq_ok h
    obtain ⟨⟨dirs, trail'⟩, heach, h⟩ := exists_of_bind_eq_ok h
    obtain ⟨rfl, rfl⟩ := Prod.mk.inj (Except.ok.inj h)
    obtain ⟨hentry, hentries⟩ := List.forall_mem_cons.mp hdirs
    have hshown : ¬ (entry.isDot ∨ entry.isVolumeLabel) :=
      entry.isHidden_eq_false_iff.mp hentry.1
    obtain ⟨clusters, skipped, hfates, hnewly, hskipped⟩ := ihrest between hentries heach
    cases ihvisit hvisit with
    | kept haccounts hnewlyBelow hskippedBelow =>
        cases haccounts with
        | read hdepth hread hbelow =>
            exact ⟨_, _, .dir hshown hentry.2 hdepth hread hbelow hfates, hnewlyBelow.append hnewly,
              by rw [hskipped, hskippedBelow, List.append_assoc]⟩
    | leftOut hsubset hskippedHere =>
        exact ⟨_, _, .skipped hshown hentry.2 hfates,
          { hnewly with
            subset := hsubset.trans hnewly.subset
            notMem_before := fun c hc hmem => hnewly.notMem_before c hc (hsubset hmem) },
          by rw [hskipped, hskippedHere, List.append_assoc]; rfl⟩

theorem accounts_below {policy : FailurePolicy} {cluster : UInt32} {survey : Survey}
    (h : Walk.below read maxDepth policy cluster = .ok survey) :
    ∃ clusters, Accounts read maxDepth (.root cluster) survey.root clusters survey.skipped ∧
      clusters.Nodup := by
  obtain ⟨⟨dir?, after⟩, hvisit, h⟩ := exists_of_bind_eq_ok h
  obtain rfl := Except.ok.inj h
  have hsome := Walk.ne_none_of_visit_root read maxDepth policy hvisit
  cases (accounts_visit policy).1 _ _ hvisit with
  | kept haccounts hnewly hskipped =>
      rw [hskipped]
      exact ⟨_, haccounts, hnewly.nodup⟩
  | leftOut => exact absurd rfl hsome

end Survey

namespace Volume

/-- Without a deadline a survey is the walk over what its directories are read as. -/
theorem gives_survey (volume : Volume) (session : Session) {options : Survey.Options}
    (hdeadline : options.deadline = none) (cluster : UInt32) :
    session.device.medium.Gives (volume.survey options cluster).run
      (Walk.below (fun cluster => ((volume.readDir cluster).perform session).1) options.maxDepth
        options.onFailure cluster) := by
  have hrun := Survey.gives_run hdeadline (volume.gives_readDirectory_readDir session)
    (Survey.taskBound volume) (.start cluster)
  rw [← Survey.runOn_start length_readDir]
  exact hrun.access_bind fun _ _ => .access_pure _

theorem perform_survey (volume : Volume) {session later : Session}
    (hlater : later.device.medium = session.device.medium) (maxDepth : Nat)
    (policy : FailurePolicy) (cluster : UInt32) :
    ((volume.survey ⟨maxDepth, policy, none⟩ cluster).perform later).1 =
      Walk.below (fun cluster => ((volume.readDir cluster).perform session).1) maxDepth policy
        cluster :=
  (volume.gives_survey session rfl cluster later hlater).1

/-- A survey that comes to an end is that walk, whether it might have been called off or not. -/
theorem below_of_survey {volume : Volume} {session : Session} {options : Survey.Options}
    {cluster : UInt32} {survey : Survey}
    (h : ((volume.survey options cluster).perform session).1 = .ok survey) :
    Walk.below (fun cluster => ((volume.readDir cluster).perform session).1) options.maxDepth
      options.onFailure cluster = .ok survey := by
  have hplain := (Survey.calledOffOr_survey volume options cluster).eq_of_ok (Prod.ext h rfl)
  have hnever : options.unhurried.deadline = none := rfl
  have hgives := volume.gives_survey session hnever cluster
  exact hgives.perform.symm.trans (congrArg Prod.fst hplain)

end Volume

/--
The tree that a survey ends with accounts once for each visible entry of each directory in it. Its
directories are no deeper than allowed, and their clusters are distinct data clusters.
-/
theorem Volume.survey_accounts {volume : Volume} {session : Session} {options : Survey.Options}
    {cluster : UInt32} {survey : Survey}
    (h : ((volume.survey options cluster).perform session).1 = .ok survey) :
    ∃ clusters, Survey.Accounts (fun cluster => ((volume.readDir cluster).perform session).1)
        options.maxDepth (.root cluster) survey.root clusters survey.skipped ∧
      clusters.Nodup ∧ (∀ cluster ∈ clusters, volume.isDataCluster cluster) ∧
      survey.root.dirCount + 1 ≤ volume.clusterCount.toNat ∧
      ∀ line ∈ survey.root.outline, ∀ name, line.item = .dir name →
        line.depth ≤ options.maxDepth := by
  obtain ⟨clusters, haccounts, hnodup⟩ := Survey.accounts_below (below_of_survey h)
  have hdata : ∀ cluster ∈ clusters, volume.isDataCluster cluster := by
    intro cluster hcluster
    obtain ⟨entries, hread⟩ := haccounts.exists_read cluster hcluster
    exact (length_readDir hread).1
  have hcount := length_le_clusterCount hdata hnodup
  rw [haccounts.length_eq] at hcount
  exact ⟨clusters, haccounts, hnodup, hdata, hcount, haccounts.depth_le⟩

/-- Of the two ways to one directory the specimen keeps the first, and it leaves out the way back
to its root. -/
theorem Volume.survey_accounts_specimen :
    let session : Session := .start (.ofImage Specimen.image 256)
    ∃ survey clusters,
      ((Specimen.volume.survey ⟨2, .skip, none⟩ 2).perform session).1 = .ok survey ∧
      survey.root.outline = [⟨0, .dir "/"⟩, ⟨1, .file ⟨"C", 5, 4⟩⟩, ⟨1, .dir "A"⟩,
        ⟨2, .file ⟨"E", 1, 7⟩⟩, ⟨2, .dir "F"⟩] ∧
      survey.skipped = [⟨"/B", .corruptChain 3 3⟩, ⟨"/D", .tooDeep "/D" 2⟩] ∧
      Survey.Accounts (fun cluster => ((Specimen.volume.readDir cluster).perform session).1) 2
        (.root 2) survey.root clusters survey.skipped ∧
      clusters.Nodup ∧ survey.root.dirCount + 1 ≤ Specimen.volume.clusterCount.toNat := by
  intro session
  have hrun : (((Specimen.volume.survey ⟨2, .skip, none⟩ 2).perform session).1.toOption.map
      fun survey => (survey.root.outline, survey.skipped)) =
      some ([⟨0, .dir "/"⟩, ⟨1, .file ⟨"C", 5, 4⟩⟩, ⟨1, .dir "A"⟩, ⟨2, .file ⟨"E", 1, 7⟩⟩,
        ⟨2, .dir "F"⟩], [⟨"/B", .corruptChain 3 3⟩, ⟨"/D", .tooDeep "/D" 2⟩]) := by
    decide +kernel
  cases hsurvey : ((Specimen.volume.survey ⟨2, .skip, none⟩ 2).perform session).1 with
  | error error => simp [hsurvey, Except.toOption] at hrun
  | ok survey =>
      obtain ⟨clusters, haccounts, hnodup, -, hcount, -⟩ := survey_accounts hsurvey
      obtain ⟨houtline, hskipped⟩ : survey.root.outline = _ ∧ survey.skipped = _ := by
        simpa [hsurvey, Except.toOption] using hrun
      exact ⟨survey, clusters, rfl, houtline, hskipped, haccounts, hnodup, hcount⟩

end Fat32
