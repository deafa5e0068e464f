import Fat32.Proofs.Cluster.Loop
import Fat32.Proofs.Tree.CallingOff
import Fat32.Proofs.Tree.Simulation

/-!
# Surveys end

Doing tasks for as long as the agenda holds one, without a bound on their number. Whatever the
volume holds and whatever fails, a survey ends by itself: each data cluster is read for one
directory at most, and the entries of these directories are all that can come onto the agenda.
-/

namespace Fat32

def Outline.Item.isDir : Outline.Item → Bool
  | .dir _ => true
  | .file _ => false

namespace Outline

def dirCount (lines : Outline) : Nat := lines.countP fun line => line.item.isDir

theorem dirCount_append (lines others : Outline) :
    dirCount (lines ++ others) = dirCount lines + dirCount others :=
  List.countP_append

theorem dirCount_dir_cons (depth : Nat) (name : String) (lines : Outline) :
    dirCount (⟨depth, .dir name⟩ :: lines) = dirCount lines + 1 :=
  List.countP_cons_of_pos rfl

theorem dirCount_files (depth : Nat) (files : List File) :
    dirCount (Outline.files depth files) = 0 := by
  simp [dirCount, Outline.files, Item.isDir]

mutual

theorem dirCount_outlineAt (depth : Nat) (dir : Dir) :
    dirCount (dir.outlineAt depth) = dir.dirCount + 1 := by
  match dir with
  | ⟨name, files, dirs⟩ =>
      rw [Dir.outlineAt, dirCount_dir_cons, dirCount_append, dirCount_files,
        dirCount_outlineAll (depth + 1) dirs, Dir.dirCount, Nat.zero_add]

theorem dirCount_outlineAll (depth : Nat) (dirs : List Dir) :
    dirCount (Dir.outlineAll depth dirs) = Dir.dirCountAll dirs := by
  match dirs with
  | [] => rfl
  | dir :: dirs =>
      rw [Dir.outlineAll, dirCount_append, dirCount_outlineAt depth dir,
        dirCount_outlineAll depth dirs, Dir.dirCountAll]
      omega

end

end Outline

namespace Survey

/-- One task of a survey, and what its directory was read as. -/
structure Turn where
  task : Task
  entries : Except Error (List Entry)

/-- The tasks that are done in a session, from some state to the end of the survey. -/
inductive Runs (volume : Volume) (options : Options) :
    Progress → Session → List Turn → Except Error Progress × Session → Prop
  | idle {progress : Progress} {session : Session} :
      progress.agenda = [] → Runs volume options progress session [] (.ok progress, session)
  | failed {progress : Progress} {session later : Session} {task : Task} {rest : List Task}
      {entries : Except Error (List Entry)} {error : Error} :
      progress.agenda = task :: rest →
      ((visit volume options progress.reached task).run session).1.1 = entries →
      (step volume options task rest progress).perform session = (.error error, later) →
      Runs volume options progress session [⟨task, entries⟩] (.error error, later)
  | turn {progress next : Progress} {session later : Session} {task : Task} {rest : List Task}
      {entries : Except Error (List Entry)} {turns : List Turn}
      {outcome : Except Error Progress × Session} :
      progress.agenda = task :: rest →
      ((visit volume options progress.reached task).run session).1.1 = entries →
      (step volume options task rest progress).perform session = (.ok next, later) →
      Runs volume options next later turns outcome →
      Runs volume options progress session (⟨task, entries⟩ :: turns) outcome

def ofProgress (progress : Progress) : Survey :=
  ⟨(Outline.toDir? progress.lines.toList).getD ⟨"", [], []⟩, progress.skipped.toList⟩

/-! ## One task -/

def readIn (volume : Volume) (options : Options) (task : Task) (session : Session)
    (cluster : UInt32) : Except Error (List Entry) :=
  ((volume.readDirectory options.deadline task.path cluster).perform session).1

section

variable (volume : Volume) (options : Options) (task : Task) (session : Session)

theorem run_visit (reached : Std.TreeSet UInt32) :
    ((visit volume options reached task).run session).1 =
      visitOn (readIn volume options task session) options reached task := by
  rw [visit, visitOn]
  cases task.refusal? options with
  | some error => rfl
  | none =>
      dsimp only
      split <;> rfl

theorem perform_step (rest : List Task) (progress : Progress) :
    ((step volume options task rest progress).perform session).1 =
      stepOn (readIn volume options task session) options task rest progress := by
  rw [step, Access.perform_lift_bind, run_visit, stepOn]
  rcases visitOn (readIn volume options task session) options progress.reached task with
    ⟨error | entries, reached⟩
  · dsimp only
    split <;> rfl
  · rfl

end

theorem of_readIn {volume : Volume} {options : Options} {task : Task} {session : Session}
    {cluster : UInt32} {entries : List Entry}
    (h : readIn volume options task session cluster = .ok entries) :
    volume.isDataCluster cluster ∧
      entries.length ≤ volume.clusterCount.toNat * (volume.clusterSize / 32) := by
  have hplain := (volume.calledOffOr_readDirectory options.deadline task.path cluster).eq_of_ok
    (Prod.ext h rfl)
  have hread := (volume.gives_readDirectory_readDir session task.path cluster).perform
  rw [hplain] at hread
  exact Volume.length_readDir hread.symm

variable {volume : Volume} {options : Options} {progress : Progress} {session : Session}
  {turns : List Turn} {outcome : Except Error Progress × Session}

/-! ## The number of tasks -/

/-- A bound of as many tasks as are done does not change how a survey ends. -/
theorem Runs.perform_run (h : Runs volume options progress session turns outcome) {limit : Nat}
    (hlimit : turns.length ≤ limit) :
    (run volume options limit progress).perform session = outcome := by
  induction h generalizing limit with
  | idle hagenda =>
      cases limit with
      | zero => rfl
      | succ limit =>
          rw [run, hagenda]
          rfl
  | failed hagenda _ hstep =>
      obtain ⟨limit, rfl⟩ := Nat.exists_eq_succ_of_ne_zero (Nat.ne_of_gt hlimit)
      rw [Nat.succ_eq_add_one, run, hagenda]
      dsimp only
      rw [Access.perform_bind, hstep]
  | turn hagenda _ hstep _ ih =>
      obtain ⟨limit, rfl⟩ := Nat.exists_eq_succ_of_ne_zero
        (Nat.ne_of_gt (Nat.lt_of_lt_of_le (Nat.succ_pos _) hlimit))
      rw [Nat.succ_eq_add_one, run, hagenda]
      dsimp only
      rw [Access.perform_bind, hstep]
      exact ih (Nat.le_of_succ_le_succ hlimit)

theorem Runs.length_le (h : Runs volume options progress session turns outcome) {limit : Nat}
    (hlimit : Affords volume limit progress) : turns.length ≤ limit := by
  induction h generalizing limit with
  | idle _ => exact Nat.zero_le limit
  | failed hagenda _ _ =>
      obtain ⟨done, -, -, hdone⟩ := hlimit
      rw [hagenda, List.length_cons] at hdone
      exact Nat.le_trans (Nat.le_add_left _ _) (Nat.le_trans (Nat.le_add_right _ _) hdone)
  | @turn progress next session _ task rest _ _ _ hagenda _ hstep _ ih =>
      obtain ⟨limit, rfl⟩ : ∃ fewer, limit = fewer + 1 := by
        obtain ⟨done, -, -, hdone⟩ := hlimit
        rw [hagenda, List.length_cons] at hdone
        exact ⟨limit - 1, by omega⟩
      have hnext := perform_step volume options task session rest progress
      rw [hstep] at hnext
      exact Nat.succ_le_succ (ih (hlimit.step of_readIn hagenda hnext.symm))

theorem exists_runs {limit : Nat} (h : Affords volume limit progress) (session : Session) :
    ∃ turns outcome, Runs volume options progress session turns outcome := by
  induction limit generalizing progress session with
  | zero =>
      obtain ⟨done, -, -, hlimit⟩ := h
      exact ⟨[], _, .idle (List.eq_nil_of_length_eq_zero (by omega))⟩
  | succ limit ih =>
      cases hagenda : progress.agenda with
      | nil => exact ⟨[], _, .idle hagenda⟩
      | cons task rest =>
          have hnext := perform_step volume options task session rest progress
          rcases hstep : (step volume options task rest progress).perform session with
            ⟨error | next, later⟩
          · exact ⟨_, _, .failed hagenda rfl hstep⟩
          · rw [hstep] at hnext
            obtain ⟨turns, outcome, hruns⟩ := ih (h.step of_readIn hagenda hnext.symm) later
            exact ⟨_, outcome, .turn hagenda rfl hstep hruns⟩

/-! ## The number of directories read -/

def readings (turns : List Turn) : List Turn := turns.filter (·.entries.isOk)

theorem Runs.length_readings (h : Runs volume options progress session turns outcome)
    {done : List UInt32} (hnodup : done.Nodup)
    (hdone : ∀ cluster ∈ done, volume.isDataCluster cluster ∧
      progress.reached.contains cluster = true) :
    (readings turns).length + done.length ≤ volume.clusterCount.toNat := by
  have hcount {progress : Progress} {done : List UInt32} (hnodup : done.Nodup)
      (hdone : ∀ cluster ∈ done, volume.isDataCluster cluster ∧
        progress.reached.contains cluster = true) : done.length ≤ volume.clusterCount.toNat :=
    Volume.length_le_clusterCount (fun cluster hcluster => (hdone cluster hcluster).1) hnodup
  induction h generalizing done with
  | idle _ => simpa [readings] using hcount hnodup hdone
  | @failed progress session _ task rest entries _ _ hentries hstep =>
      have hfailed := perform_step volume options task session rest progress
      rw [hstep, stepOn] at hfailed
      rw [run_visit] at hentries
      rcases visitOn_cases (readIn volume options task session) options progress.reached task with
        ⟨read, hvisit, -⟩ | ⟨error, _, hvisit, -⟩
      · simp [hvisit] at hfailed
      · rw [← hentries, hvisit]
        simpa [readings, Except.isOk, Except.toBool] using hcount hnodup hdone
  | @turn progress next session _ task rest entries turns _ _ hentries hstep _ ih =>
      have hnext := perform_step volume options task session rest progress
      rw [hstep] at hnext
      rw [run_visit] at hentries
      rcases stepOn_cases hnext.symm with ⟨read, hvisit, hfresh, hread, rfl⟩ |
        ⟨error, _, hvisit, hreached, rfl⟩
      · obtain ⟨hnew, hall⟩ := done_of_read hdone hnodup hfresh (of_readIn hread).1
        have hrest := ih hnew hall
        rw [← hentries, hvisit]
        simp only [readings, Except.isOk, Except.toBool, List.filter_cons_of_pos,
          List.length_cons] at hrest ⊢
        omega
      · have hrest := ih hnodup (done_of_leftOut hdone hreached)
        rw [← hentries, hvisit]
        simpa [readings, Except.isOk, Except.toBool] using hrest

/-! ## What is counted in the tree -/

theorem Runs.length_turns (h : Runs volume options progress session turns outcome)
    {after : Progress} (hafter : outcome.1 = .ok after) :
    Outline.dirCount after.lines.toList + after.skipped.size =
      Outline.dirCount progress.lines.toList + progress.skipped.size + turns.length := by
  induction h with
  | idle _ =>
      obtain rfl := Except.ok.inj hafter
      rfl
  | failed _ _ _ => contradiction
  | @turn progress next session _ task rest _ turns _ _ _ hstep _ ih =>
      have hnext := perform_step volume options task session rest progress
      rw [hstep] at hnext
      rw [ih hafter, List.length_cons]
      rcases stepOn_cases hnext.symm with ⟨entries, -, -, -, rfl⟩ | ⟨_, _, -, -, rfl⟩
      · have hlines : (expanded progress task rest entries).lines.toList =
            progress.lines.toList ++ ⟨task.depth, .dir task.name⟩ ::
              Outline.files (task.depth + 1) (filesOf entries) := by
          simp [expanded]
        rw [hlines, Outline.dirCount_append, Outline.dirCount_dir_cons, Outline.dirCount_files]
        simp only [expanded]
        omega
      · simp only [leftOut, Array.size_push]
        omega

theorem exists_outline_of_run {cluster : UInt32} {after : Progress} {later : Session}
    (h : (run volume options (taskBound volume) (.start cluster)).perform session =
      (.ok after, later)) : ∃ dir : Dir, after.lines.toList = dir.outline := by
  have hplain := (calledOffOr_run volume options _ _).eq_of_ok h
  have hrun := (gives_run (show options.unhurried.deadline = none from rfl)
    (volume.gives_readDirectory_readDir session) (taskBound volume) (.start cluster)).perform
  rw [hplain] at hrun
  obtain ⟨error, herror, -⟩ | ⟨after', dir, trail, hafter, -, hagrees⟩ :=
    @runOn_taskBound volume _ options.unhurried cluster Volume.length_readDir
  · rw [herror] at hrun
    contradiction
  · rw [hafter] at hrun
    obtain rfl := Except.ok.inj hrun
    exact ⟨dir, hagrees.lines_eq⟩

end Survey

namespace Volume

theorem perform_readDirectory {volume : Volume} {deadline : Option Nat} {path : String}
    {cluster : UInt32} {session : Session} {items : List (Except Error UInt32)}
    {outcome : Except Error (Decoder × Array Entry) × Session}
    (h : Chain.Loops volume (volume.decodeNext deadline path) (.ofStart volume cluster)
      (.initial, #[]) session items outcome) :
    ((volume.readDirectory deadline path cluster).perform session).1 =
      outcome.1.map fun state => state.2.toList := by
  have hstart := Chain.yielded_ofTable volume .empty cluster
  have hclusters := h.length_clustersOf hstart
  have hlength := h.length_le_succ hstart
  have hbound : items.length ≤ volume.chainBound := by
    rw [chainBound]
    omega
  rw [readDirectory, Access.perform_bind, h.perform_forEach hstart hbound]
  rcases outcome with ⟨error | state, later⟩ <;> rfl

/--
A survey ends by itself, whatever the volume holds, whatever fails and however deep it may go. No
more directories are read than there are data clusters, and for each of them no more clusters are
visited than that. A tree stands for as many tasks as it has directories, the one surveyed
included, and as were left out of it.
-/
theorem survey_ends (volume : Volume) (options : Survey.Options) (cluster : UInt32)
    (session : Session) :
    (∃ turns outcome, Survey.Runs volume options (.start cluster) session turns outcome) ∧
    (∀ turns outcome later,
      Survey.Runs volume options (.start cluster) session turns (outcome, later) →
      (volume.survey options cluster).perform session =
        (outcome.map Survey.ofProgress, later) ∧
      (Survey.readings turns).length ≤ volume.clusterCount.toNat ∧
      ∀ survey, outcome.map Survey.ofProgress = .ok survey →
        turns.length = 1 + survey.root.dirCount + survey.skipped.length) ∧
    ∀ path cluster session,
      (∃ items outcome, Chain.Loops volume (volume.decodeNext options.deadline path)
        (.ofStart volume cluster) (.initial, #[]) session items outcome) ∧
      ∀ items outcome later, Chain.Loops volume (volume.decodeNext options.deadline path)
          (.ofStart volume cluster) (.initial, #[]) session items (outcome, later) →
        ((volume.readDirectory options.deadline path cluster).perform session).1 =
          (outcome.map fun state => state.2.toList) ∧
        (Chain.clustersOf items).length ≤ volume.clusterCount.toNat := by
  have hbound := Survey.affords_start volume cluster
  refine ⟨Survey.exists_runs hbound session, fun turns outcome later hruns => ?_,
    fun path cluster session => ?_⟩
  · have hrun := hruns.perform_run (hruns.length_le hbound)
    refine ⟨?_, hruns.length_readings List.nodup_nil (by simp), fun survey hsurvey => ?_⟩
    · rw [Volume.survey, Access.perform_bind, hrun]
      cases outcome <;> rfl
    · cases outcome with
      | error error => contradiction
      | ok after =>
          obtain rfl := Except.ok.inj hsurvey
          obtain ⟨dir, hdir⟩ := Survey.exists_outline_of_run hrun
          have hcount := hruns.length_turns rfl
          rw [hdir, Dir.outline, Outline.dirCount_outlineAt] at hcount
          have hroot : (Survey.ofProgress after).root = dir := by
            rw [Survey.ofProgress, hdir, Outline.toDir?_outline, Option.getD_some]
          have hstart : Outline.dirCount (Survey.Progress.start cluster).lines.toList +
              (Survey.Progress.start cluster).skipped.size = 0 := rfl
          have hskipped : (Survey.ofProgress after).skipped.length = after.skipped.size :=
            Array.length_toList
          rw [hroot, hskipped]
          omega
  · have hstart := Chain.yielded_ofTable volume .empty cluster
    refine ⟨hstart.exists_loops _ _ (Nat.le_add_left _ _) _ session,
      fun items outcome later hloops => ⟨perform_readDirectory hloops, ?_⟩⟩
    simpa using hloops.length_clustersOf hstart

end Volume

end Fat32
