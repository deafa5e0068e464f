import Fat32.Proofs.Tree.Descent

/-!
# Depth limits

What a limit leaves of a tree. A whole tree is visited again under any limit: the clusters in it
are met once each, so nothing but the limit refuses a directory. The directories one level below
the limit are left out, and with them all that is deeper.
-/

namespace Fat32

namespace Dir

/-! ## Heights, places and cuts -/

mutual

def height : Dir → Nat
  | ⟨_, _, dirs⟩ => heightAll dirs

def heightAll : List Dir → Nat
  | [] => 0
  | dir :: rest => max (dir.height + 1) (heightAll rest)

end

structure Place where
  depth : Nat
  path : String
  deriving DecidableEq, Repr

mutual

def placesAt (depth : Nat) (path : String) : Dir → List Place
  | ⟨_, _, dirs⟩ => ⟨depth, path⟩ :: placesAll (depth + 1) path dirs

def placesAll (depth : Nat) (path : String) : List Dir → List Place
  | [] => []
  | dir :: rest =>
      dir.placesAt depth (Path.child path dir.name) ++ placesAll depth path rest

end

def places (dir : Dir) : List Place := dir.placesAt 0 "/"

mutual

/-- The tree down to the given depth. The directories that remain keep their files. -/
def cut (depth : Nat) : Dir → Dir
  | ⟨name, files, dirs⟩ => ⟨name, files, cutAll depth dirs⟩

def cutAll (levels : Nat) : List Dir → List Dir
  | [] => []
  | dir :: rest =>
      match levels with
      | 0 => []
      | levels + 1 => dir.cut levels :: cutAll (levels + 1) rest

end

theorem placesAt_eq (depth : Nat) (path : String) (dir : Dir) :
    dir.placesAt depth path = ⟨depth, path⟩ :: placesAll (depth + 1) path dir.dirs := by
  cases dir
  rfl

theorem cutAll_zero (dirs : List Dir) : cutAll 0 dirs = [] := by
  cases dirs <;> rfl

mutual

theorem cut_of_height_le {depth : Nat} (dir : Dir) (h : dir.height ≤ depth) :
    dir.cut depth = dir := by
  match dir with
  | ⟨name, files, dirs⟩ => exact congrArg (Dir.mk name files) (cutAll_of_heightAll_le dirs h)

theorem cutAll_of_heightAll_le {levels : Nat} (dirs : List Dir) (h : heightAll dirs ≤ levels) :
    cutAll levels dirs = dirs := by
  match dirs, levels with
  | [], _ => rfl
  | dir :: rest, 0 => simp [heightAll] at h
  | dir :: rest, levels + 1 =>
      obtain ⟨hdir, hrest⟩ := Nat.max_le.mp h
      rw [cutAll, cut_of_height_le dir (Nat.le_of_succ_le_succ hdir),
        cutAll_of_heightAll_le rest hrest]

end

mutual

theorem depth_of_mem_placesAt {depth : Nat} {path : String} {place : Place} (dir : Dir)
    (h : place ∈ dir.placesAt depth path) :
    depth ≤ place.depth ∧ place.depth ≤ depth + dir.height := by
  match dir with
  | ⟨name, files, dirs⟩ =>
      rcases List.mem_cons.mp h with rfl | h
      · exact ⟨Nat.le_refl _, Nat.le_add_right _ _⟩
      · have hbelow := depth_of_mem_placesAll dirs h
        rw [height]
        omega

theorem depth_of_mem_placesAll {depth : Nat} {path : String} {place : Place} (dirs : List Dir)
    (h : place ∈ placesAll (depth + 1) path dirs) :
    depth + 1 ≤ place.depth ∧ place.depth ≤ depth + heightAll dirs := by
  match dirs with
  | [] => contradiction
  | dir :: rest =>
      rw [heightAll]
      rcases List.mem_append.mp h with h | h
      · have hdir := depth_of_mem_placesAt dir h
        omega
      · have hrest := depth_of_mem_placesAll rest h
        omega

end

mutual

theorem exists_placeAt {levels : Nat} (depth : Nat) (path : String) (dir : Dir)
    (h : levels ≤ dir.height) :
    ∃ place ∈ dir.placesAt depth path, place.depth = depth + levels := by
  match dir, levels with
  | ⟨name, files, dirs⟩, 0 => exact ⟨_, List.mem_cons_self .., rfl⟩
  | ⟨name, files, dirs⟩, levels + 1 =>
      obtain ⟨place, hplace, hdepth⟩ := exists_placeAll depth path dirs h
      exact ⟨place, List.mem_cons_of_mem _ hplace, hdepth⟩

theorem exists_placeAll {levels : Nat} (depth : Nat) (path : String) (dirs : List Dir)
    (h : levels + 1 ≤ heightAll dirs) :
    ∃ place ∈ placesAll (depth + 1) path dirs, place.depth = depth + (levels + 1) := by
  match dirs with
  | [] => contradiction
  | dir :: rest =>
      rcases le_max_iff.mp h with h | h
      · obtain ⟨place, hplace, hdepth⟩ := exists_placeAt (depth + 1) (Path.child path dir.name) dir
          (Nat.le_of_succ_le_succ h)
        exact ⟨place, List.mem_append_left _ hplace, by omega⟩
      · obtain ⟨place, hplace, hdepth⟩ := exists_placeAll depth path rest h
        exact ⟨place, List.mem_append_right _ hplace, hdepth⟩

end

end Dir

def Outline.Line.level (line : Line) : Nat :=
  match line.item with
  | .dir _ => line.depth
  | .file _ => line.depth - 1

namespace Dir

theorem level_of_mem_files {depth : Nat} {files : List File} {line : Outline.Line}
    (h : line ∈ Outline.files (depth + 1) files) : line.level = depth := by
  obtain ⟨file, -, rfl⟩ := List.mem_map.mp h
  rfl

mutual

theorem le_level_of_mem_outlineAt {depth : Nat} {line : Outline.Line} (dir : Dir)
    (h : line ∈ dir.outlineAt depth) : depth ≤ line.level := by
  match dir with
  | ⟨name, files, dirs⟩ =>
      rcases List.mem_cons.mp h with rfl | h
      · exact Nat.le_refl _
      rcases List.mem_append.mp h with h | h
      · exact (level_of_mem_files h).ge
      · exact Nat.le_of_succ_le (le_level_of_mem_outlineAll dirs h)

theorem le_level_of_mem_outlineAll {depth : Nat} {line : Outline.Line} (dirs : List Dir)
    (h : line ∈ outlineAll depth dirs) : depth ≤ line.level := by
  match dirs with
  | [] => contradiction
  | dir :: rest =>
      exact (List.mem_append.mp h).elim (le_level_of_mem_outlineAt dir)
        (le_level_of_mem_outlineAll rest)

end

mutual

theorem outlineAt_cut (levels depth : Nat) (dir : Dir) : (dir.cut levels).outlineAt depth =
    (dir.outlineAt depth).filter (·.level ≤ depth + levels) := by
  match dir with
  | ⟨name, files, dirs⟩ =>
      have hfiles : (Outline.files (depth + 1) files).filter (·.level ≤ depth + levels) =
          Outline.files (depth + 1) files :=
        List.filter_eq_self.mpr fun line hline =>
          decide_eq_true ((level_of_mem_files hline).le.trans (Nat.le_add_right _ _))
      have hline : (Outline.Line.mk depth (.dir name)).level ≤ depth + levels :=
        Nat.le_add_right _ _
      rw [cut, outlineAt, outlineAt, List.filter_cons, if_pos (decide_eq_true hline),
        List.filter_append, hfiles, outlineAll_cut levels depth dirs]

theorem outlineAll_cut (levels depth : Nat) (dirs : List Dir) :
    outlineAll (depth + 1) (cutAll levels dirs) =
      (outlineAll (depth + 1) dirs).filter (·.level ≤ depth + levels) := by
  match dirs, levels with
  | [], _ => rfl
  | dir :: rest, 0 =>
      symm
      rw [cutAll]
      refine List.filter_eq_nil_iff.mpr fun line hline => ?_
      have hlevel := le_level_of_mem_outlineAll (dir :: rest) hline
      rw [decide_eq_true_eq]
      omega
  | dir :: rest, levels + 1 =>
      rw [cutAll, outlineAll, outlineAll, List.filter_append, outlineAt_cut levels (depth + 1) dir,
        outlineAll_cut (levels + 1) depth rest, Nat.add_right_comm, Nat.add_assoc]

end

/-- Of the lines of a tree, those of the directories down to a depth are the tree cut there. -/
theorem outline_cut (depth : Nat) (dir : Dir) :
    (dir.cut depth).outline = dir.outline.filter (·.level ≤ depth) := by
  have h := outlineAt_cut depth 0 dir
  rwa [Nat.zero_add] at h

end Dir

namespace Survey

/-! ## What a walk attempts -/

/-- On the way between two trails none but the given clusters was attempted, and the given
directories were left out. -/
structure Attempts (trail after : Walk.Trail) (clusters : List UInt32)
    (leftOut : List Skipped) : Prop where
  subset : trail.attempted ⊆ after.attempted
  mem_attempted : ∀ cluster ∈ after.attempted, cluster ∈ clusters ∨ cluster ∈ trail.attempted
  skipped_eq : after.skipped = trail.skipped ++ leftOut

/-- The clusters are distinct and not attempted so far, other than those above them. -/
structure Untouched (trail : Walk.Trail) (above clusters : List UInt32) : Prop where
  nodup : clusters.Nodup
  notMem_attempted : ∀ cluster ∈ clusters, cluster ∉ trail.attempted
  above_attempted : ∀ cluster ∈ above, cluster ∈ trail.attempted

variable {trail between after : Walk.Trail} {above clusters others : List UInt32}
  {leftOut leftLater : List Skipped}

namespace Attempts

theorem nil (trail : Walk.Trail) (clusters : List UInt32) : Attempts trail trail clusters [] :=
  ⟨Finset.Subset.refl _, fun _ => .inr, (List.append_nil _).symm⟩

theorem cons {cluster : UInt32}
    (h : Attempts { trail with attempted := insert cluster trail.attempted } after clusters
      leftOut) :
    Attempts trail after (cluster :: clusters) leftOut := by
  refine ⟨(Finset.subset_insert _ _).trans h.subset, fun other hother => ?_, h.skipped_eq⟩
  have hmem := h.mem_attempted other hother
  rwa [Finset.mem_insert, or_left_comm, ← or_assoc, ← List.mem_cons] at hmem

theorem append (h : Attempts trail between clusters leftOut)
    (hothers : Attempts between after others leftLater) :
    Attempts trail after (clusters ++ others) (leftOut ++ leftLater) := by
  refine ⟨h.subset.trans hothers.subset, fun cluster hcluster => ?_, ?_⟩
  · rw [List.mem_append, or_right_comm]
    exact (hothers.mem_attempted cluster hcluster).elim .inr fun hbetween =>
      .inl (h.mem_attempted cluster hbetween)
  · rw [hothers.skipped_eq, h.skipped_eq, List.append_assoc]

end Attempts

namespace Untouched

theorem enter {cluster : UInt32} (h : Untouched trail above (cluster :: clusters)) :
    Untouched { trail with attempted := insert cluster trail.attempted } (cluster :: above)
      clusters := by
  obtain ⟨hnew, hnodup⟩ := List.nodup_cons.mp h.nodup
  refine ⟨hnodup, fun other hother hmem => ?_, fun other hother => ?_⟩
  · rcases Finset.mem_insert.mp hmem with rfl | hmem
    · exact hnew hother
    · exact h.notMem_attempted other (List.mem_cons_of_mem _ hother) hmem
  · rcases List.mem_cons.mp hother with rfl | hother
    · exact Finset.mem_insert_self _ _
    · exact Finset.mem_insert_of_mem (h.above_attempted other hother)

theorem left (h : Untouched trail above (clusters ++ others)) : Untouched trail above clusters where
  nodup := (List.nodup_append.mp h.nodup).1
  notMem_attempted cluster hcluster := h.notMem_attempted cluster (List.mem_append_left _ hcluster)
  above_attempted := h.above_attempted

theorem right (h : Untouched trail above (clusters ++ others))
    (hattempts : Attempts trail after clusters leftOut) : Untouched after above others := by
  obtain ⟨-, hnodup, hdisjoint⟩ := List.nodup_append.mp h.nodup
  refine ⟨hnodup, fun cluster hcluster hmem => ?_, fun cluster hcluster => ?_⟩
  · rcases hattempts.mem_attempted cluster hmem with hearlier | hearlier
    · exact hdisjoint cluster hearlier cluster hcluster rfl
    · exact h.notMem_attempted cluster (List.mem_append_right _ hcluster) hearlier
  · exact hattempts.subset (h.above_attempted cluster hcluster)

end Untouched

/-! ## Walking again -/

/-- What a limit leaves out of a tree with directories in the given places. -/
def beyond (limit : Nat) (places : List Dir.Place) : List Skipped :=
  (places.filter (·.depth = limit + 1)).map fun place => ⟨place.path, .tooDeep place.path limit⟩

theorem beyond_append (limit : Nat) (places others : List Dir.Place) :
    beyond limit (places ++ others) = beyond limit places ++ beyond limit others := by
  rw [beyond, List.filter_append, List.map_append]
  rfl

theorem beyond_eq_nil {limit : Nat} {places : List Dir.Place}
    (h : ∀ place ∈ places, place.depth ≠ limit + 1) : beyond limit places = [] := by
  rw [beyond, List.filter_eq_nil_iff.mpr fun place hplace => by simpa using h place hplace,
    List.map_nil]

theorem beyond_placesAt_of_le {limit depth : Nat} (h : depth ≤ limit) (path : String) (dir : Dir) :
    beyond limit (dir.placesAt depth path) =
      beyond limit (Dir.placesAll (depth + 1) path dir.dirs) := by
  have hkept : ¬ depth = limit + 1 := by omega
  rw [beyond, Dir.placesAt_eq, List.filter_cons, if_neg (by simpa using hkept), beyond]

theorem beyond_placesAt_succ (limit : Nat) (path : String) (dir : Dir) :
    beyond limit (dir.placesAt (limit + 1) path) = [⟨path, .tooDeep path limit⟩] := by
  have hbelow : beyond limit (Dir.placesAll (limit + 1 + 1) path dir.dirs) = [] :=
    beyond_eq_nil fun place hplace => by
      have hdepth := (Dir.depth_of_mem_placesAll dir.dirs hplace).1
      omega
  rw [Dir.placesAt_eq, ← List.singleton_append, beyond_append, hbelow, beyond,
    List.filter_singleton]
  simp

theorem beyond_places_of_height_le {limit : Nat} {dir : Dir} (h : dir.height ≤ limit) :
    beyond limit dir.places = [] :=
  beyond_eq_nil fun place hplace => by
    have hdepth := (Dir.depth_of_mem_placesAt dir hplace).2
    omega

theorem exists_filter_places_eq_cons {limit : Nat} {dir : Dir} (h : limit < dir.height) :
    ∃ first rest, dir.places.filter (·.depth = limit + 1) = first :: rest := by
  obtain ⟨place, hplace, hdepth⟩ := Dir.exists_placeAt 0 "/" dir h
  rw [Nat.zero_add] at hdepth
  exact List.exists_cons_of_ne_nil
    (List.ne_nil_of_mem (List.mem_filter.mpr ⟨hplace, decide_eq_true hdepth⟩))

variable {read : UInt32 → Except Error (List Entry)} {maxDepth limit : Nat} {task other : Task}

theorem exists_visit_of_visitEach {entries : List Entry} {dirs : List Dir}
    (hdepth : task.depth ≤ limit) (h : Untouched trail task.above (task.cluster :: clusters))
    (hread : read task.cluster = .ok entries)
    (heach : ∃ after, Walk.visitEach read limit .skip task (dirsOf entries)
        { trail with attempted := insert task.cluster trail.attempted } = .ok (dirs, after) ∧
      Attempts { trail with attempted := insert task.cluster trail.attempted } after clusters
        leftOut) :
    ∃ after, Walk.visit read limit .skip task trail =
        .ok (some ⟨task.name, filesOf entries, dirs⟩, after) ∧
      Attempts trail after (task.cluster :: clusters) leftOut := by
  obtain ⟨after, heach, hattempts⟩ := heach
  have hfresh := h.notMem_attempted task.cluster (List.mem_cons_self ..)
  have hallowed : ¬ (task.depth > limit ∨ task.cluster ∈ task.above) := by
    rintro (hdeep | hwithin)
    · omega
    · exact hfresh (h.above_attempted _ hwithin)
  refine ⟨after, ?_, hattempts.cons⟩
  rw [Walk.visit, if_neg hallowed, if_neg hfresh]
  simp only [hread, ← dirsOf_eq, ← filesOf_eq, heach]
  rfl

theorem visit_beyond (hdepth : limit < task.depth) (trail : Walk.Trail) :
    Walk.visit read limit .skip task trail = .ok (none,
      { trail with skipped := trail.skipped ++ [⟨task.path, .tooDeep task.path limit⟩] }) := by
  rw [Walk.visit, if_pos (.inl hdepth), Walk.giveUp, if_pos ⟨rfl, rfl, by omega⟩]

/-- A walk that has attempted none of the clusters below a directory visits all of them again,
down to its limit. -/
theorem Fates.exists_visitEach {entries : List Entry} {files : List File} {dirs : List Dir}
    {skipped : List Skipped}
    (h : Fates read maxDepth task entries files dirs clusters skipped) (hskipped : skipped = [])
    (hdepth : other.depth ≤ limit)
    (huntouched : Untouched trail (other.cluster :: other.above) clusters) :
    ∃ after, Walk.visitEach read limit .skip other (dirsOf entries) trail =
        .ok (Dir.cutAll (limit - other.depth) dirs, after) ∧
      Attempts trail after clusters
        (beyond limit (Dir.placesAll (other.depth + 1) other.path dirs)) := by
  induction h generalizing other trail with
  | nil =>
      refine ⟨trail, ?_, .nil trail _⟩
      rw [show dirsOf [] = [] from rfl, Walk.visitEach, Dir.cutAll]
  | hidden hhidden _ ih =>
      rw [dirsOf_cons_of_hidden hhidden]
      exact ih hskipped hdepth huntouched
  | file _ hfile _ ih =>
      rw [dirsOf_cons_of_file hfile]
      exact ih hskipped hdepth huntouched
  | @dir task entry entries below files filesBelow dirs dirsBelow clusters clustersBelow _ _
      hshown hdir _ hread hbelow _ ihbelow ih =>
      obtain ⟨rfl, rfl⟩ := List.append_eq_nil_iff.mp hskipped
      have huntouchedChild : Untouched trail (other.child entry).above
          ((other.child entry).cluster :: clustersBelow) := huntouched.left
      -- the directory is visited again or lies too deep, and the walk goes on from there
      obtain ⟨dir?, between, hvisit, hcut, hbetween⟩ : ∃ dir? between,
          Walk.visit read limit .skip (other.child entry) trail = .ok (dir?, between) ∧
          Dir.cutAll (limit - other.depth) (⟨entry.name, filesBelow, dirsBelow⟩ :: dirs) =
            dir?.toList ++ Dir.cutAll (limit - other.depth) dirs ∧
          Attempts trail between (entry.firstCluster :: clustersBelow) (beyond limit
            (Dir.placesAt (other.depth + 1) (other.child entry).path
              ⟨entry.name, filesBelow, dirsBelow⟩)) := by
        rcases hdepth.eq_or_lt with heq | hlt
        · refine ⟨none, _, visit_beyond (heq ▸ Nat.lt_succ_self _) trail, ?_, ?_⟩
          · rw [heq, Nat.sub_self, Dir.cutAll_zero, Dir.cutAll_zero]
            rfl
          · rw [heq, beyond_placesAt_succ]
            exact ⟨Finset.Subset.refl _, fun _ => .inr, rfl⟩
        · obtain ⟨between, hvisit, hbetween⟩ := exists_visit_of_visitEach hlt huntouchedChild
            hread (ihbelow rfl hlt huntouchedChild.enter)
          rw [← hbelow.files_eq] at hvisit
          refine ⟨_, between, hvisit, ?_, ?_⟩
          · rw [show limit - other.depth = limit - (other.child entry).depth + 1 by
              rw [Walk.depth_child]; omega, Dir.cutAll, Dir.cut]
            rfl
          · rw [beyond_placesAt_of_le hlt]
            exact hbetween
      obtain ⟨after, heach, hafter⟩ := ih rfl hdepth (huntouched.right hbetween)
      refine ⟨after, ?_, ?_⟩
      · rw [dirsOf_cons_of_dir hshown hdir, Walk.visitEach_cons, hvisit, hcut]
        simp only [bind, Except.bind, heach]
        rfl
      · rw [Dir.placesAll, beyond_append]
        exact hbetween.append hafter
  | skipped => contradiction

theorem Accounts.exists_visit {dir : Dir}
    (h : Accounts read maxDepth task dir clusters []) (hcluster : other.cluster = task.cluster)
    (hdepth : other.depth ≤ limit) (huntouched : Untouched trail other.above clusters) :
    ∃ after, Walk.visit read limit .skip other trail =
        .ok (some ⟨other.name, dir.files, Dir.cutAll (limit - other.depth) dir.dirs⟩, after) ∧
      Attempts trail after clusters
        (beyond limit (Dir.placesAll (other.depth + 1) other.path dir.dirs)) := by
  cases h with
  | read _ hread hfates =>
      rw [← hcluster] at hread huntouched
      rw [hfates.files_eq]
      rw [← hcluster]
      exact exists_visit_of_visitEach hdepth huntouched hread
        (hfates.exists_visitEach rfl hdepth huntouched.enter)

/-! ## Whole trees under a limit -/

theorem Fates.height_le {entries : List Entry} {files : List File} {dirs : List Dir}
    {skipped : List Skipped}
    (h : Fates read maxDepth task entries files dirs clusters skipped)
    (hdepth : task.depth ≤ maxDepth) : task.depth + Dir.heightAll dirs ≤ maxDepth := by
  induction h with
  | nil => exact hdepth
  | hidden _ _ ih => exact ih hdepth
  | file _ _ _ ih => exact ih hdepth
  | dir _ _ hchild _ _ _ ihbelow ih =>
      have hbelow := ihbelow hchild
      have hrest := ih hdepth
      rw [Walk.depth_child] at hbelow
      rw [Dir.heightAll, Dir.height]
      omega
  | skipped _ _ _ ih => exact ih hdepth

namespace Accounts

variable {dir : Dir}

theorem height_le {skipped : List Skipped}
    (h : Accounts read maxDepth task dir clusters skipped) :
    task.depth + dir.height ≤ maxDepth := by
  cases h with
  | read hdepth _ hfates => exact hfates.height_le hdepth

theorem below_skip (h : Accounts read maxDepth task dir clusters []) (hnodup : clusters.Nodup)
    (limit : Nat) :
    Walk.below read limit .skip task.cluster = .ok
      ⟨(Dir.mk "/" dir.files dir.dirs).cut limit,
        beyond limit (Dir.mk "/" dir.files dir.dirs).places⟩ := by
  have huntouched : Untouched ⟨∅, []⟩ (Task.root task.cluster).above clusters :=
    ⟨hnodup, fun _ _ => Finset.notMem_empty _, List.forall_mem_nil _⟩
  have hroot : (Task.root task.cluster).cluster = task.cluster := rfl
  obtain ⟨after, hvisit, hattempts⟩ := h.exists_visit hroot (Nat.zero_le limit) huntouched
  rw [Walk.below_eq, hvisit, Dir.places, beyond_placesAt_of_le (Nat.zero_le limit)]
  simp only [bind, Except.bind, hattempts.skipped_eq, List.nil_append]
  rfl

theorem below_abort (h : Accounts read maxDepth task dir clusters []) (hnodup : clusters.Nodup)
    (limit : Nat) :
    Walk.below read limit .abort task.cluster =
      match beyond limit (Dir.mk "/" dir.files dir.dirs).places with
      | [] => .ok ⟨(Dir.mk "/" dir.files dir.dirs).cut limit,
          beyond limit (Dir.mk "/" dir.files dir.dirs).places⟩
      | first :: _ => .error first.error := by
  obtain ⟨entries, hread⟩ := h.exists_read task.cluster (by cases h; exact List.mem_cons_self ..)
  have hlenience : Walk.Lenience Survey.skipped [] (Walk.below read limit .abort task.cluster)
      (Walk.below read limit .skip task.cluster) := Walk.lenience_below hread
  rw [h.below_skip hnodup limit] at hlenience
  exact hlenience.strict_eq

theorem below_of_height_le (h : Accounts read maxDepth task dir clusters [])
    (hnodup : clusters.Nodup) (hheight : dir.height ≤ limit) (policy : FailurePolicy) :
    Walk.below read limit policy task.cluster = .ok ⟨⟨"/", dir.files, dir.dirs⟩, []⟩ := by
  have hroot : (Dir.mk "/" dir.files dir.dirs).height ≤ limit := by
    cases dir
    exact hheight
  have hbeyond := beyond_places_of_height_le hroot
  cases policy with
  | abort => rw [h.below_abort hnodup, hbeyond, Dir.cut_of_height_le _ hroot]
  | skip => rw [h.below_skip hnodup, hbeyond, Dir.cut_of_height_le _ hroot]

end Accounts

end Survey

namespace Volume

/-- What a limit means for a volume whose whole tree is known. Up to the height of the tree it is
the tree cut at the limit, whose outline has the lines of the directories down to there and of the
files in them, with each directory one level deeper left out in the order of the tree; or the first
of these is the failure. From there on it is the same tree. -/
theorem survey_limits {volume : Volume} {session : Session} {maxDepth : Nat}
    {deadline : Option Nat} {cluster : UInt32} {survey : Survey}
    (h : ((volume.survey ⟨maxDepth, .abort, deadline⟩ cluster).perform session).1 = .ok survey)
    (limit : Nat) {later : Session} (hlater : later.device.medium = session.device.medium) :
    let strict := ((volume.survey ⟨limit, .abort, none⟩ cluster).perform later).1
    let lenient := ((volume.survey ⟨limit, .skip, none⟩ cluster).perform later).1
    (survey.root.height ≤ limit → strict = .ok survey ∧ lenient = .ok survey) ∧
    (limit < survey.root.height →
      (∃ first rest, survey.root.places.filter (·.depth = limit + 1) = first :: rest ∧
        strict = .error (.tooDeep first.path limit)) ∧
      lenient = .ok ⟨survey.root.cut limit,
        (survey.root.places.filter (·.depth = limit + 1)).map fun place =>
          ⟨place.path, .tooDeep place.path limit⟩⟩ ∧
      (survey.root.cut limit).outline = survey.root.outline.filter (·.level ≤ limit)) := by
  have hwalk := below_of_survey h
  obtain ⟨clusters, haccounts, hnodup⟩ := Survey.accounts_below_abort hwalk
  have hskipped := Walk.skipped_of_below_abort hwalk
  rcases survey with ⟨⟨name, files, dirs⟩, skipped⟩
  obtain rfl : name = "/" := by
    cases haccounts
    rfl
  obtain rfl : skipped = [] := hskipped
  intro strict lenient
  have hstrict : strict = _ := (volume.perform_survey hlater limit .abort cluster).trans
    (haccounts.below_abort hnodup limit)
  have hlenient : lenient = _ := (volume.perform_survey hlater limit .skip cluster).trans
    (haccounts.below_skip hnodup limit)
  refine ⟨fun hheight => ?_, fun hheight => ⟨?_, hlenient, Dir.outline_cut limit _⟩⟩
  · rw [hstrict, hlenient, Survey.beyond_places_of_height_le hheight,
      Dir.cut_of_height_le _ hheight]
    exact ⟨rfl, rfl⟩
  · obtain ⟨first, rest, hfirst⟩ := Survey.exists_filter_places_eq_cons hheight
    refine ⟨first, rest, hfirst, ?_⟩
    rw [hstrict, Survey.beyond, hfirst, List.map_cons]

/-- Under the limit 1 the sound specimen has no directory in A, and under the limit 2 all of its
tree. -/
theorem survey_limits_specimen :
    let session : Session := .start (.ofImage Specimen.sound 256)
    let strict (limit : Nat) :=
      ((Specimen.volume.survey ⟨limit, .abort, none⟩ 2).perform session).1
    let lenient (limit : Nat) :=
      ((Specimen.volume.survey ⟨limit, .skip, none⟩ 2).perform session).1
    Specimen.tree.height = 2 ∧ strict 2 = .ok ⟨Specimen.tree, []⟩ ∧
      lenient 2 = .ok ⟨Specimen.tree, []⟩ ∧ strict 1 = .error (.tooDeep "/A/F" 1) ∧
      lenient 1 = .ok ⟨⟨"/", [⟨"C", 5, 4⟩], [⟨"A", [⟨"E", 1, 7⟩], []⟩]⟩,
        [⟨"/A/F", .tooDeep "/A/F" 1⟩]⟩ := by
  intro session strict lenient
  have hsurvey : strict 2 = .ok ⟨Specimen.tree, []⟩ := Survey.perform_survey_sound
  obtain ⟨hsame, -⟩ := survey_limits hsurvey 2 (rfl : session.device.medium = _)
  obtain ⟨-, hless⟩ := survey_limits hsurvey 1 (rfl : session.device.medium = _)
  obtain ⟨⟨first, rest, hfirst, hstrict⟩, hlenient, -⟩ := hless (by decide)
  have hplaces : Specimen.tree.places.filter (·.depth = 1 + 1) = [⟨2, "/A/F"⟩] := by
    decide +kernel
  rw [hplaces] at hfirst hlenient
  obtain ⟨rfl, -⟩ := List.cons.inj hfirst
  exact ⟨by decide, hsurvey, (hsame (by decide)).2, hstrict, hlenient⟩

end Volume

end Fat32
