import Fat32.Tree.Survey
import Mathlib.Data.Finset.Insert
import Mathlib.Data.List.DropRight

/-!
# Walks

Everything below a directory, told by recursion: a directory is visited before the directories in
it, and these in the order of the volume. Each of them takes the cluster of the one above along,
and its path ends in its name after a slash. The walk carries along the clusters that it has
attempted to read and the directories that it has left out.
-/

namespace Fat32

namespace Walk

open Survey (Task Skipped)

structure Trail where
  attempted : Finset UInt32
  skipped : List Skipped

/-- What becomes of a directory that cannot be visited: under the policy to skip it is left out if
its error is its own, unless the walk began there. Otherwise its error is that of the walk. -/
def giveUp (policy : FailurePolicy) (task : Task) (error : Error) (trail : Trail) :
    Except Error (Option Dir × Trail) :=
  if policy = .skip ∧ error.isSubtreeLocal ∧ task.depth ≠ 0 then
    .ok (none, { trail with skipped := trail.skipped ++ [⟨task.path, error⟩] })
  else .error error

def kept (entries : List Entry) : List Entry :=
  entries.filter fun entry => !entry.isDot && !entry.isVolumeLabel

def fileOf (entry : Entry) : File := ⟨entry.name, entry.size, entry.firstCluster⟩

theorem depth_child (task : Task) (entry : Entry) : (task.child entry).depth = task.depth + 1 :=
  rfl

section

variable (read : UInt32 → Except Error (List Entry)) (maxDepth : Nat) (policy : FailurePolicy)

mutual

def visit (task : Task) (trail : Trail) : Except Error (Option Dir × Trail) :=
  if task.depth > maxDepth ∨ task.cluster ∈ task.above then
    giveUp policy task (.tooDeep task.path maxDepth) trail
  else if task.cluster ∈ trail.attempted then
    giveUp policy task (.corruptChain task.cluster task.cluster) trail
  else
    let trail := { trail with attempted := insert task.cluster trail.attempted }
    match read task.cluster with
    | .error error => giveUp policy task error trail
    | .ok entries => do
        let files := ((kept entries).filter fun entry => !entry.isDirectory).map fileOf
        let (dirs, trail) ← visitEach task ((kept entries).filter Entry.isDirectory) trail
        return (some ⟨task.name, files, dirs⟩, trail)
termination_by (maxDepth + 1 - task.depth, 0)

def visitEach (task : Task) (entries : List Entry) (trail : Trail) :
    Except Error (List Dir × Trail) :=
  match entries with
  | [] => .ok ([], trail)
  | entry :: entries => do
      let (dir?, trail) ← visit
        { name := entry.name
          cluster := entry.firstCluster
          path := String.ofList (task.path.toList.rdropWhile (· == '/')) ++ "/" ++ entry.name
          above := task.cluster :: task.above } trail
      let (dirs, trail) ← visitEach task entries trail
      return (dir?.toList ++ dirs, trail)
termination_by (maxDepth - task.depth, entries.length + 1)
decreasing_by
  · rw [Task.depth, List.length_cons, Nat.add_sub_add_right]
    exact .right _ (Nat.succ_pos _)
  · exact .right _ (Nat.lt_succ_self _)

end

theorem visitEach_cons (task : Task) (entry : Entry) (entries : List Entry) (trail : Trail) :
    visitEach read maxDepth policy task (entry :: entries) trail = do
      let (dir?, trail) ← visit read maxDepth policy (task.child entry) trail
      let (dirs, trail) ← visitEach read maxDepth policy task entries trail
      return (dir?.toList ++ dirs, trail) := by
  rw [visitEach]
  rfl

theorem ne_none_of_visit_root {cluster : UInt32} {trail : Trail} {result : Option Dir × Trail}
    (h : visit read maxDepth policy (.root cluster) trail = .ok result) : result.1 ≠ none := by
  have hroot {error : Error} {trail : Trail} :
      giveUp policy (.root cluster) error trail = .error error :=
    if_neg fun hskip => hskip.2.2 rfl
  rw [visit] at h
  split at h
  · simp [hroot] at h
  split at h
  · simp [hroot] at h
  dsimp only at h
  split at h
  · simp [hroot] at h
  · generalize visitEach read maxDepth policy _ _ _ = each at h
    cases each with
    | error error => contradiction
    | ok value =>
        obtain rfl := Except.ok.inj h
        exact Option.some_ne_none _

/-- The tree below the directory at `cluster`, and what was left out of it. -/
def below (cluster : UInt32) : Except Error Survey := do
  let (root?, trail) ← visit read maxDepth policy ⟨"/", cluster, "/", []⟩ ⟨∅, []⟩
  return ⟨root?.getD ⟨"", [], []⟩, trail.skipped⟩

theorem below_eq (cluster : UInt32) : below read maxDepth policy cluster = do
    let (root?, trail) ← visit read maxDepth policy (.root cluster) ⟨∅, []⟩
    return ⟨root?.getD ⟨"", [], []⟩, trail.skipped⟩ :=
  rfl

end

end Walk

end Fat32
