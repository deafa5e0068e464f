import Fat32.Proofs.Directory.Reading
import Fat32.Tree.Survey

/-!
# Agendas

A survey of an unchanging medium without the reports: what one task does to the state, and what a
number of tasks leads to. No survey runs out of the tasks it may do, for each task after the first
stands for an entry of a directory that was read, and no data cluster is read for a directory
twice.
-/

namespace Fat32

namespace Survey

/-! ## Surveys of an unchanging medium -/

section

variable (read : UInt32 → Except Error (List Entry)) (options : Options)

def visitOn (reached : Std.TreeSet UInt32) (task : Task) :
    Except Error (List Entry) × Std.TreeSet UInt32 :=
  match task.refusal? options with
  | some error => (.error error, reached)
  | none =>
      if reached.contains task.cluster then
        (.error (.corruptChain task.cluster task.cluster), reached)
      else (read task.cluster, reached.insert task.cluster)

def stepOn (task : Task) (rest : List Task) (progress : Progress) : Except Error Progress :=
  let (entries, reached) := visitOn read options progress.reached task
  match entries with
  | .ok entries => .ok {
      progress with
      agenda := (dirsOf entries).map task.child ++ rest
      reached
      lines := progress.lines.push ⟨task.depth, .dir task.name⟩
        ++ Outline.files (task.depth + 1) (filesOf entries) }
  | .error error =>
      if options.onFailure = .skip ∧ error.isSubtreeLocal ∧ task.depth ≠ 0 then
        let skipped := progress.skipped.push ⟨task.path, error⟩
        .ok { progress with agenda := rest, reached, skipped }
      else .error error

def runOn : (limit : Nat) → Progress → Except Error Progress
  | 0, progress => .ok progress
  | limit + 1, progress =>
      match progress.agenda with
      | [] => .ok progress
      | task :: rest => stepOn read options task rest progress >>= runOn limit

end

section

variable {volume : Volume} {medium : Device} {read : UInt32 → Except Error (List Entry)}
  {options : Options} (hdeadline : options.deadline = none)
  (hread : ∀ path cluster, medium.Gives (volume.readDirectory none path cluster).run (read cluster))

include hdeadline hread

theorem gives_visit (reached : Std.TreeSet UInt32) (task : Task) :
    medium.Gives (visit volume options reached task) (visitOn read options reached task) := by
  rw [visit, visitOn, hdeadline]
  cases task.refusal? options with
  | some error => exact .pure _
  | none =>
      dsimp only
      split
      · exact (Device.Gives.report _).bind (.pure _)
      · exact (hread task.path task.cluster).bind (.pure _)

theorem gives_step (task : Task) (rest : List Task) (progress : Progress) :
    medium.Gives (step volume options task rest progress).run
      (stepOn read options task rest progress) := by
  refine (gives_visit hdeadline hread progress.reached task).lift_bind ?_
  rw [stepOn]
  rcases visitOn read options progress.reached task with ⟨error | entries, reached⟩
  · dsimp only
    split
    · exact (Device.Gives.report _).lift_bind (.access_pure _)
    · exact .throw error
  · exact (Device.Gives.report _).lift_bind (.access_pure _)

theorem gives_run (limit : Nat) (progress : Progress) :
    medium.Gives (run volume options limit progress).run (runOn read options limit progress) := by
  induction limit generalizing progress with
  | zero => exact .access_pure _
  | succ limit ih =>
      rw [run, runOn]
      cases progress.agenda with
      | nil => exact .access_pure _
      | cons task rest =>
          exact (gives_step hdeadline hread task rest progress).access_bind fun next _ => ih next

end

/-! ## One task -/

section

variable {read : UInt32 → Except Error (List Entry)} {options : Options}

theorem visitOn_of_refused {task : Task} (reached : Std.TreeSet UInt32)
    (hrefused : task.depth > options.maxDepth ∨ task.cluster ∈ task.above) :
    visitOn read options reached task =
      (Except.error (Error.tooDeep task.path options.maxDepth), reached) := by
  rw [visitOn, Task.refusal?, if_pos hrefused]

theorem visitOn_of_reached {task : Task} {reached : Std.TreeSet UInt32}
    (hallowed : ¬ (task.depth > options.maxDepth ∨ task.cluster ∈ task.above))
    (hreached : reached.contains task.cluster = true) :
    visitOn read options reached task =
      (Except.error (Error.corruptChain task.cluster task.cluster), reached) := by
  rw [visitOn, Task.refusal?, if_neg hallowed]
  exact if_pos hreached

theorem visitOn_of_fresh {task : Task} {reached : Std.TreeSet UInt32}
    (hallowed : ¬ (task.depth > options.maxDepth ∨ task.cluster ∈ task.above))
    (hfresh : ¬ reached.contains task.cluster = true) :
    visitOn read options reached task = (read task.cluster, reached.insert task.cluster) := by
  rw [visitOn, Task.refusal?, if_neg hallowed]
  exact if_neg hfresh

def expanded (progress : Progress) (task : Task) (rest : List Task) (entries : List Entry) :
    Progress where
  agenda := (dirsOf entries).map task.child ++ rest
  reached := progress.reached.insert task.cluster
  lines := progress.lines.push ⟨task.depth, .dir task.name⟩
    ++ Outline.files (task.depth + 1) (filesOf entries)
  skipped := progress.skipped

theorem stepOn_of_read {progress : Progress} {task : Task} {rest : List Task}
    {entries : List Entry}
    (hallowed : ¬ (task.depth > options.maxDepth ∨ task.cluster ∈ task.above))
    (hfresh : ¬ progress.reached.contains task.cluster = true)
    (hread : read task.cluster = .ok entries) :
    stepOn read options task rest progress = .ok (expanded progress task rest entries) := by
  rw [stepOn, visitOn_of_fresh hallowed hfresh, hread]
  rfl

def leftOut (progress : Progress) (task : Task) (rest : List Task) (error : Error)
    (reached : Std.TreeSet UInt32) : Progress where
  agenda := rest
  reached := reached
  lines := progress.lines
  skipped := progress.skipped.push ⟨task.path, error⟩

/-- A task reads a directory that was not reached before, or fails. -/
theorem visitOn_cases (read : UInt32 → Except Error (List Entry)) (options : Options)
    (reached : Std.TreeSet UInt32) (task : Task) :
    (∃ entries, visitOn read options reached task =
        (Except.ok entries, reached.insert task.cluster) ∧
      ¬ reached.contains task.cluster = true ∧ read task.cluster = .ok entries) ∨
    ∃ error reached', visitOn read options reached task = (Except.error error, reached') ∧
      (reached' = reached ∨ reached' = reached.insert task.cluster) := by
  by_cases hallowed : task.depth > options.maxDepth ∨ task.cluster ∈ task.above
  · exact .inr ⟨_, reached, visitOn_of_refused reached hallowed, .inl rfl⟩
  by_cases hfresh : reached.contains task.cluster = true
  · exact .inr ⟨_, reached, visitOn_of_reached hallowed hfresh, .inl rfl⟩
  have hvisit : visitOn read options reached task =
      (read task.cluster, reached.insert task.cluster) :=
    visitOn_of_fresh hallowed hfresh
  cases hread : read task.cluster with
  | error error => exact .inr ⟨error, _, hvisit.trans (by rw [hread]), .inr rfl⟩
  | ok entries => exact .inl ⟨entries, hvisit.trans (by rw [hread]), hfresh, rfl⟩

theorem stepOn_cases {progress next : Progress} {task : Task} {rest : List Task}
    (h : stepOn read options task rest progress = .ok next) :
    (∃ entries, (visitOn read options progress.reached task).1 = .ok entries ∧
      ¬ progress.reached.contains task.cluster = true ∧ read task.cluster = .ok entries ∧
      next = expanded progress task rest entries) ∨
    ∃ error reached, (visitOn read options progress.reached task).1 = .error error ∧
      (reached = progress.reached ∨ reached = progress.reached.insert task.cluster) ∧
      next = leftOut progress task rest error reached := by
  rcases visitOn_cases read options progress.reached task with
    ⟨entries, hvisit, hfresh, hread⟩ | ⟨error, reached, hvisit, hreached⟩
  · rw [stepOn, hvisit] at h
    exact .inl ⟨entries, by rw [hvisit], hfresh, hread, (Except.ok.inj h).symm⟩
  · rw [stepOn, hvisit] at h
    dsimp only at h
    split at h
    · exact .inr ⟨error, reached, by rw [hvisit], hreached, (Except.ok.inj h).symm⟩
    · contradiction

/-! ## Runs -/

theorem runOn_of_idle (limit : Nat) {progress : Progress} (h : progress.agenda = []) :
    runOn read options limit progress = .ok progress := by
  cases limit with
  | zero => rfl
  | succ limit => rw [runOn, h]

theorem runOn_of_agenda (limit : Nat) {progress : Progress} {task : Task} {rest : List Task}
    (h : progress.agenda = task :: rest) : runOn read options (limit + 1) progress =
      stepOn read options task rest progress >>= runOn read options limit := by
  rw [runOn, h]

theorem runOn_add (first second : Nat) (progress : Progress) :
    runOn read options (first + second) progress =
      runOn read options first progress >>= runOn read options second := by
  induction first generalizing progress with
  | zero =>
      rw [Nat.zero_add]
      rfl
  | succ first ih =>
      rw [Nat.succ_add]
      cases hagenda : progress.agenda with
      | nil =>
          rw [runOn_of_idle _ hagenda, runOn_of_idle _ hagenda]
          exact (runOn_of_idle second hagenda).symm
      | cons task rest =>
          rw [runOn_of_agenda _ hagenda, runOn_of_agenda _ hagenda]
          cases stepOn read options task rest progress with
          | error error => rfl
          | ok next => exact ih next

def Leads (read : UInt32 → Except Error (List Entry)) (options : Options) (progress : Progress)
    (outcome : Except Error Progress) : Prop :=
  ∃ steps, runOn read options steps progress = outcome

theorem Leads.refl (progress : Progress) : Leads read options progress (.ok progress) := ⟨0, rfl⟩

theorem Leads.step {progress : Progress} {task : Task} {rest : List Task}
    (hagenda : progress.agenda = task :: rest) :
    Leads read options progress (stepOn read options task rest progress) := by
  refine ⟨1, ?_⟩
  rw [runOn_of_agenda 0 hagenda]
  cases stepOn read options task rest progress <;> rfl

theorem Leads.trans {progress next : Progress} {outcome : Except Error Progress}
    (hfirst : Leads read options progress (.ok next)) (hsecond : Leads read options next outcome) :
    Leads read options progress outcome := by
  obtain ⟨first, hfirst⟩ := hfirst
  obtain ⟨second, hsecond⟩ := hsecond
  refine ⟨first + second, ?_⟩
  rw [runOn_add, hfirst]
  exact hsecond

theorem Leads.runOn_eq {limit : Nat} {progress : Progress} {outcome : Except Error Progress}
    (h : Leads read options progress outcome)
    (houtcome : ∀ after, outcome = .ok after → after.agenda = [])
    (hlimit : ∀ after, runOn read options limit progress = .ok after → after.agenda = []) :
    runOn read options limit progress = outcome := by
  obtain ⟨steps, hsteps⟩ := h
  have hover : runOn read options (limit + steps) progress = runOn read options limit progress := by
    rw [runOn_add]
    cases hrun : runOn read options limit progress with
    | error error => rfl
    | ok after => exact runOn_of_idle steps (hlimit after hrun)
  have hunder : runOn read options (steps + limit) progress = outcome := by
    rw [runOn_add, hsteps]
    cases outcome with
    | error error => rfl
    | ok after => exact runOn_of_idle limit (houtcome after rfl)
  rw [← hover, Nat.add_comm, hunder]

end

/-! ## The number of tasks -/

/-- The tasks that the agenda and the clusters not yet read can make up are no more than
`limit`. -/
def Affords (volume : Volume) (limit : Nat) (progress : Progress) : Prop :=
  ∃ done : List UInt32, done.Nodup ∧
    (∀ cluster ∈ done, volume.isDataCluster cluster ∧ progress.reached.contains cluster = true) ∧
    progress.agenda.length + (volume.clusterCount.toNat - done.length) *
      (volume.clusterCount.toNat * (volume.clusterSize / 32)) ≤ limit

theorem affords_start (volume : Volume) (cluster : UInt32) :
    Affords volume (taskBound volume) (.start cluster) :=
  ⟨[], .nil, by simp, Nat.le_refl _⟩

theorem contains_insert {reached : Std.TreeSet UInt32} {cluster : UInt32} (new : UInt32)
    (h : reached.contains cluster = true) : (reached.insert new).contains cluster = true := by
  rw [Std.TreeSet.contains_insert, h, Bool.or_true]

section

variable {volume : Volume} {reached reached' : Std.TreeSet UInt32} {cluster : UInt32}
  {done : List UInt32}
  (hdone : ∀ c ∈ done, volume.isDataCluster c ∧ reached.contains c = true)

include hdone

theorem done_of_read (hnodup : done.Nodup) (hfresh : ¬ reached.contains cluster = true)
    (hdata : volume.isDataCluster cluster) : (cluster :: done).Nodup ∧
      ∀ c ∈ cluster :: done, volume.isDataCluster c ∧
        (reached.insert cluster).contains c = true := by
  refine ⟨List.nodup_cons.mpr ⟨fun hmem => hfresh (hdone cluster hmem).2, hnodup⟩, ?_⟩
  intro c hc
  rcases List.mem_cons.mp hc with rfl | hc
  · exact ⟨hdata, Std.TreeSet.contains_insert_self⟩
  · exact ⟨(hdone c hc).1, contains_insert cluster (hdone c hc).2⟩

theorem done_of_leftOut (hreached : reached' = reached ∨ reached' = reached.insert cluster) :
    ∀ c ∈ done, volume.isDataCluster c ∧ reached'.contains c = true := by
  rcases hreached with rfl | rfl
  · exact hdone
  · exact fun c hc => ⟨(hdone c hc).1, contains_insert cluster (hdone c hc).2⟩

end

section

variable {volume : Volume} {read : UInt32 → Except Error (List Entry)} {options : Options}
  (hread : ∀ {cluster entries}, read cluster = .ok entries → volume.isDataCluster cluster ∧
    entries.length ≤ volume.clusterCount.toNat * (volume.clusterSize / 32))

include hread

theorem Affords.step {limit : Nat} {progress next : Progress} {task : Task} {rest : List Task}
    (h : Affords volume (limit + 1) progress) (hagenda : progress.agenda = task :: rest)
    (hstep : stepOn read options task rest progress = .ok next) : Affords volume limit next := by
  obtain ⟨done, hnodup, hdone, hlimit⟩ := h
  rw [hagenda, List.length_cons] at hlimit
  rcases stepOn_cases hstep with ⟨entries, -, hfresh, hentries, rfl⟩ | ⟨_, _, -, hreached, rfl⟩
  · -- the cluster is one of those that were left, and pays for the tasks of its entries
    obtain ⟨hdata, hlength⟩ := hread hentries
    obtain ⟨hnew, hall⟩ := done_of_read hdone hnodup hfresh hdata
    have hcount := Volume.length_le_clusterCount (fun cluster hcluster =>
      (hall cluster hcluster).1) hnew
    refine ⟨task.cluster :: done, hnew, hall, ?_⟩
    have hdirs : (dirsOf entries).length ≤ entries.length := List.length_filter_le _ _
    have hleft : volume.clusterCount.toNat - done.length =
        volume.clusterCount.toNat - (task.cluster :: done).length + 1 := by
      rw [List.length_cons] at hcount ⊢
      omega
    rw [hleft, Nat.succ_mul] at hlimit
    simp only [expanded, List.length_append, List.length_map]
    omega
  · refine ⟨done, hnodup, done_of_leftOut hdone hreached, ?_⟩
    simp only [leftOut]
    omega

theorem agenda_of_runOn {limit : Nat} {progress after : Progress}
    (h : Affords volume limit progress) (hrun : runOn read options limit progress = .ok after) :
    after.agenda = [] := by
  induction limit generalizing progress with
  | zero =>
      obtain ⟨done, -, -, hlimit⟩ := h
      obtain rfl := Except.ok.inj hrun
      exact List.eq_nil_of_length_eq_zero (by omega)
  | succ limit ih =>
      cases hagenda : progress.agenda with
      | nil =>
          rw [runOn_of_idle _ hagenda] at hrun
          obtain rfl := Except.ok.inj hrun
          exact hagenda
      | cons task rest =>
          rw [runOn_of_agenda limit hagenda] at hrun
          cases hstep : stepOn read options task rest progress with
          | error error => simp [hstep, bind, Except.bind] at hrun
          | ok next =>
              rw [hstep] at hrun
              exact ih (h.step hread hagenda hstep) hrun

end

end Survey

end Fat32
