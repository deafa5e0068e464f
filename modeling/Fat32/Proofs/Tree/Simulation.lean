import Fat32.Proofs.Tree.Agenda
import Fat32.Proofs.Tree.Walk

/-!
# Surveys are walks

A survey keeps an agenda where a walk recurs. Visiting a directory is the same as doing its task
and then all tasks that come of it, after which the rest of the agenda stands as before, and the
lines written are those of the tree that the walk gives.
-/

namespace Fat32

namespace Survey

/-! ## What both write -/

theorem outlineAll_append (depth : Nat) (dirs others : List Dir) :
    Dir.outlineAll depth (dirs ++ others) =
      Dir.outlineAll depth dirs ++ Dir.outlineAll depth others := by
  induction dirs with
  | nil => rfl
  | cons dir dirs ih =>
      rw [List.cons_append, Dir.outlineAll, Dir.outlineAll, ih, List.append_assoc]

theorem filter_kept (p : Entry → Bool) (entries : List Entry) :
    (entries.filter fun entry => !entry.isHidden && p entry) = (Walk.kept entries).filter p := by
  rw [Walk.kept, List.filter_filter]
  apply List.filter_congr
  intro entry _
  rw [Entry.isHidden, Bool.not_or, Bool.and_comm]

theorem filesOf_eq (entries : List Entry) : filesOf entries =
    ((Walk.kept entries).filter fun entry => !entry.isDirectory).map Walk.fileOf := by
  rw [← filter_kept]
  rfl

theorem dirsOf_eq (entries : List Entry) :
    dirsOf entries = (Walk.kept entries).filter Entry.isDirectory := by
  rw [← filter_kept]
  rfl

/-! ## Agreement -/

structure Agrees (progress : Progress) (agenda : List Task) (lines : Outline)
    (trail : Walk.Trail) : Prop where
  agenda_eq : progress.agenda = agenda
  lines_eq : progress.lines.toList = lines
  skipped_eq : progress.skipped.toList = trail.skipped
  mem_attempted : ∀ cluster, cluster ∈ trail.attempted ↔ progress.reached.contains cluster = true

namespace Agrees

variable {progress : Progress} {agenda : List Task} {lines : Outline} {trail : Walk.Trail}

theorem fresh (h : Agrees progress agenda lines trail) {cluster : UInt32}
    (hcluster : cluster ∉ trail.attempted) : ¬ progress.reached.contains cluster = true :=
  fun hreached => hcluster ((h.mem_attempted cluster).mpr hreached)

theorem mem_insert (h : Agrees progress agenda lines trail) (new cluster : UInt32) :
    cluster ∈ insert new trail.attempted ↔
      (progress.reached.insert new).contains cluster = true := by
  rw [Finset.mem_insert, h.mem_attempted, Std.TreeSet.contains_insert, Bool.or_eq_true,
    beq_iff_eq, Std.compare_eq_iff_eq, eq_comm]

theorem expanded {task : Task} {rest : List Task} (h : Agrees progress (task :: rest) lines trail)
    (entries : List Entry) :
    Agrees (Survey.expanded progress task rest entries)
      (((Walk.kept entries).filter Entry.isDirectory).map task.child ++ rest)
      (lines ++ ⟨task.depth, .dir task.name⟩ :: Outline.files (task.depth + 1) (filesOf entries))
      { trail with attempted := insert task.cluster trail.attempted } := by
  refine ⟨?_, ?_, h.skipped_eq, h.mem_insert task.cluster⟩
  · rw [Survey.expanded, dirsOf_eq]
  · simp [Survey.expanded, h.lines_eq]

end Agrees

/-! ## Simulation -/

section

variable {read : UInt32 → Except Error (List Entry)} {options : Options}

/-- The tasks before `rest` do what the walk does that has the given result. -/
def Simulates (read : UInt32 → Except Error (List Entry)) (options : Options) (progress : Progress)
    (rest : List Task) (lines : Outline) (depth : Nat) :
    Except Error (List Dir × Walk.Trail) → Prop
  | .error error => Leads read options progress (.error error)
  | .ok (dirs, trail) => ∃ after, Leads read options progress (.ok after) ∧
      Agrees after rest (lines ++ Dir.outlineAll depth dirs) trail

theorem Simulates.of_leads {progress next : Progress} {rest : List Task} {lines : Outline}
    {depth : Nat} {result : Except Error (List Dir × Walk.Trail)}
    (hleads : Leads read options progress (.ok next))
    (h : Simulates read options next rest lines depth result) :
    Simulates read options progress rest lines depth result := by
  cases result with
  | error error => exact hleads.trans h
  | ok value =>
      obtain ⟨after, hafter, hagrees⟩ := h
      exact ⟨after, hleads.trans hafter, hagrees⟩

def visited (read : UInt32 → Except Error (List Entry)) (options : Options) (task : Task)
    (trail : Walk.Trail) : Except Error (List Dir × Walk.Trail) :=
  (Walk.visit read options.maxDepth options.onFailure task trail).map fun (dir?, trail) =>
    (dir?.toList, trail)

theorem simulates_giveUp {progress : Progress} {task : Task} {rest : List Task} {lines : Outline}
    {trail : Walk.Trail} {error : Error} {reached : Std.TreeSet UInt32}
    (hagrees : Agrees progress (task :: rest) lines trail) {attempted : Finset UInt32}
    (hvisit : visitOn read options progress.reached task = (Except.error error, reached))
    (hattempted : ∀ cluster, cluster ∈ attempted ↔ reached.contains cluster = true) :
    Simulates read options progress rest lines task.depth
      ((Walk.giveUp options.onFailure task error { trail with attempted }).map
        fun (dir?, trail) => (dir?.toList, trail)) := by
  have hleads : Leads read options progress (stepOn read options task rest progress) :=
    .step hagrees.agenda_eq
  rw [stepOn, hvisit] at hleads
  rw [Walk.giveUp]
  by_cases hskip : options.onFailure = .skip ∧ error.isSubtreeLocal ∧ task.depth ≠ 0
  · rw [if_pos hskip]
    simp only [if_pos hskip] at hleads
    refine ⟨_, hleads, rfl, ?_, ?_, hattempted⟩
    · simpa [Dir.outlineAll] using hagrees.lines_eq
    · simpa using hagrees.skipped_eq
  · rw [if_neg hskip]
    simp only [if_neg hskip] at hleads
    exact hleads

/-- Visiting a directory, or some in the same one, is doing their tasks and all that come of
them. -/
theorem simulates_visit : (∀ (task : Task) (trail : Walk.Trail) {progress : Progress}
      {rest : List Task} {lines : Outline}, Agrees progress (task :: rest) lines trail →
      Simulates read options progress rest lines task.depth (visited read options task trail)) ∧
    ∀ (task : Task) (entries : List Entry) (trail : Walk.Trail) {progress : Progress}
      {rest : List Task} {lines : Outline},
      Agrees progress (entries.map task.child ++ rest) lines trail →
      Simulates read options progress rest lines (task.depth + 1)
        (Walk.visitEach read options.maxDepth options.onFailure task entries trail) := by
  -- by the recursion of the walk; the agenda below `rest` is any, so the hypotheses compose
  apply Walk.visit.mutual_induct read options.maxDepth
  case case1 =>
    intro task trail hrefused progress rest lines hagrees
    rw [visited, Walk.visit, if_pos hrefused]
    exact simulates_giveUp hagrees (visitOn_of_refused _ hrefused) hagrees.mem_attempted
  case case2 =>
    intro task trail hallowed hattempted progress rest lines hagrees
    have hreached := (hagrees.mem_attempted task.cluster).mp hattempted
    rw [visited, Walk.visit, if_neg hallowed, if_pos hattempted]
    exact simulates_giveUp hagrees (visitOn_of_reached hallowed hreached) hagrees.mem_attempted
  case case3 =>
    intro task trail hallowed hattempted error hread progress rest lines hagrees
    have hvisit : visitOn read options progress.reached task =
        (.error error, progress.reached.insert task.cluster) := by
      rw [visitOn_of_fresh hallowed (hagrees.fresh hattempted), hread]
    rw [visited, Walk.visit, if_neg hallowed, if_neg hattempted]
    simp only [hread]
    exact simulates_giveUp hagrees hvisit (hagrees.mem_insert task.cluster)
  case case4 =>
    -- the directories in it come next on the agenda, before all that was there
    intro task trail hallowed hattempted attempted entries hread ih progress rest lines hagrees
    have hleads : Leads read options progress (stepOn read options task rest progress) :=
      .step hagrees.agenda_eq
    rw [stepOn_of_read hallowed (hagrees.fresh hattempted) hread] at hleads
    have hbelow := ih (hagrees.expanded entries)
    rw [visited, Walk.visit, if_neg hallowed, if_neg hattempted]
    simp only [hread]
    refine .of_leads hleads ?_
    generalize Walk.visitEach read options.maxDepth options.onFailure task _ _ = result at hbelow ⊢
    cases result with
    | error error => exact hbelow
    | ok value =>
        obtain ⟨after, hafter, hagreesAfter⟩ := hbelow
        refine ⟨after, hafter, ?_⟩
        simpa [Dir.outlineAll, Dir.outlineAt, filesOf_eq] using hagreesAfter
  case case5 =>
    intro task trail progress rest lines hagrees
    rw [Walk.visitEach]
    refine ⟨progress, .refl progress, ?_⟩
    simpa [Dir.outlineAll] using hagrees
  case case6 =>
    -- whatever becomes of the first directory, the others are next
    intro task trail entry entries ihvisit ihrest progress rest lines hagrees
    have hvisit : Simulates read options progress (entries.map task.child ++ rest) lines
        (task.child entry).depth (visited read options (task.child entry) trail) :=
      ihvisit hagrees
    rw [Walk.visitEach_cons]
    rw [visited] at hvisit
    cases hresult : Walk.visit read options.maxDepth options.onFailure (task.child entry) trail with
    | error error =>
        rw [hresult] at hvisit
        exact hvisit
    | ok result =>
        rw [hresult] at hvisit
        obtain ⟨after, hleads, hafter⟩ := hvisit
        have hrest := ihrest result.2 hafter
        refine .of_leads hleads ?_
        change Simulates read options after rest lines (task.depth + 1)
          (Walk.visitEach read options.maxDepth options.onFailure task entries result.2 >>=
            fun each => pure (result.1.toList ++ each.1, each.2))
        generalize Walk.visitEach read options.maxDepth options.onFailure task _ _ = each at hrest ⊢
        cases each with
        | error error => exact hrest
        | ok value =>
            obtain ⟨last, hlast, hagreesLast⟩ := hrest
            refine ⟨last, hlast, ?_⟩
            rw [outlineAll_append, ← List.append_assoc]
            exact hagreesLast

end

/-! ## The survey of a volume -/

theorem agrees_start (cluster : UInt32) :
    Agrees (.start cluster) [.root cluster] [] ⟨∅, []⟩ := by
  refine ⟨rfl, rfl, rfl, fun cluster => ?_⟩
  simp [Progress.start]

section

variable {volume : Volume} {read : UInt32 → Except Error (List Entry)} {options : Options}
  {cluster : UInt32}
  (hread : ∀ {cluster entries}, read cluster = .ok entries → volume.isDataCluster cluster ∧
    entries.length ≤ volume.clusterCount.toNat * (volume.clusterSize / 32))

include hread

theorem runOn_taskBound :
    (∃ error, runOn read options (taskBound volume) (.start cluster) = .error error ∧
      Walk.visit read options.maxDepth options.onFailure (.root cluster) ⟨∅, []⟩ = .error error) ∨
    ∃ after dir trail, runOn read options (taskBound volume) (.start cluster) = .ok after ∧
      Walk.visit read options.maxDepth options.onFailure (.root cluster) ⟨∅, []⟩ =
        .ok (some dir, trail) ∧ Agrees after [] dir.outline trail := by
  have hbound : ∀ after, runOn read options (taskBound volume) (.start cluster) = .ok after →
      after.agenda = [] :=
    fun _ => agenda_of_runOn hread (affords_start volume cluster)
  have hsimulates : Simulates read options (.start cluster) [] [] 0
      (visited read options (.root cluster) ⟨∅, []⟩) :=
    simulates_visit.1 (.root cluster) ⟨∅, []⟩ (agrees_start cluster)
  rw [visited] at hsimulates
  cases hvisit : Walk.visit read options.maxDepth options.onFailure (.root cluster) ⟨∅, []⟩ with
  | error error =>
      rw [hvisit] at hsimulates
      exact .inl ⟨error, hsimulates.runOn_eq (by simp) hbound, rfl⟩
  | ok result =>
      have hsome := Walk.ne_none_of_visit_root read options.maxDepth options.onFailure hvisit
      rw [hvisit] at hsimulates
      obtain ⟨dir?, trail⟩ := result
      obtain ⟨after, hleads, hagrees⟩ := hsimulates
      obtain ⟨dir, rfl⟩ := Option.ne_none_iff_exists'.mp hsome
      refine .inr ⟨after, dir, trail,
        hleads.runOn_eq (by simpa using hagrees.agenda_eq) hbound, rfl, ?_⟩
      simpa [Dir.outlineAll, Dir.outline] using hagrees

theorem runOn_start :
    (runOn read options (taskBound volume) (.start cluster) >>= fun progress =>
      pure ⟨(Outline.toDir? progress.lines.toList).getD ⟨"", [], []⟩, progress.skipped.toList⟩) =
        Walk.below read options.maxDepth options.onFailure cluster := by
  rw [Walk.below_eq]
  obtain ⟨error, hrun, hvisit⟩ | ⟨after, dir, trail, hrun, hvisit, hagrees⟩ :=
    @runOn_taskBound volume read options cluster hread
  · rw [hrun, hvisit]
    rfl
  · rw [hrun, hvisit]
    simp [bind, Except.bind, pure, Except.pure, hagrees.lines_eq, hagrees.skipped_eq,
      Outline.toDir?_outline]

end

end Survey

/-- The survey of an unchanging device is the walk over what its directories are read as. -/
theorem Volume.survey_eq_below (volume : Volume) (session : Session) (maxDepth : Nat)
    (policy : FailurePolicy) (cluster : UInt32) :
    ((volume.survey ⟨maxDepth, policy, none⟩ cluster).perform session).1 =
      Walk.below (fun cluster => ((volume.readDir cluster).perform session).1) maxDepth policy
        cluster := by
  let options : Survey.Options := ⟨maxDepth, policy, none⟩
  have hrun := Survey.gives_run (show options.deadline = none from rfl)
    (volume.gives_readDirectory_readDir session) (Survey.taskBound volume) (.start cluster)
  exact ((hrun.access_bind fun _ _ => .access_pure _).perform).trans
    (Survey.runOn_start Volume.length_readDir)

end Fat32
