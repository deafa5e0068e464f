import Fat32.Proofs.Tree.Depth

/-!
# Subtrees

A directory of a whole tree is surveyed on its own. None of its clusters is met twice and the
limit still allows all of its depth, so the walk that begins there gives just what the tree has
below it.
-/

namespace Fat32

namespace Survey

variable {read : UInt32 → Except Error (List Entry)} {maxDepth limit : Nat}
  {policy : FailurePolicy}

theorem below_of_descends {cluster below : UInt32} {survey : Survey}
    {may : List Entry → String → Entry → Prop} {names : List String} {dir : Dir}
    (h : Walk.below read maxDepth .abort cluster = .ok survey)
    (hdescends : Descends read may survey.root cluster names dir below)
    (hlimit : maxDepth - names.length ≤ limit) :
    Walk.below read limit policy below = .ok ⟨⟨"/", dir.files, dir.dirs⟩, []⟩ := by
  obtain ⟨clusters, haccounts, hnodup⟩ := accounts_below_abort h
  obtain ⟨task, clusters', haccounts', rfl, hdepth, hsublist⟩ := hdescends.accounts haccounts
  have hheight := haccounts'.height_le
  exact haccounts'.below_of_height_le (hnodup.sublist hsublist) (by omega) policy

end Survey

namespace Volume

/-- A directory of a whole tree, surveyed on its own, is a tree of the same files and directories
for any limit that leaves the rest of the depth below it. Every directory in it is reached as
well. -/
theorem survey_below {volume : Volume} {session : Session} {maxDepth : Nat}
    {deadline : Option Nat} {cluster below : UInt32} {survey : Survey} {names : List String}
    {dir : Dir}
    (h : ((volume.survey ⟨maxDepth, .abort, deadline⟩ cluster).perform session).1 = .ok survey) :
    let Reached := Survey.Descends (fun cluster => ((volume.readDir cluster).perform session).1)
      (fun _ _ _ => True) survey.root cluster
    Reached names dir below →
      (∀ child ∈ dir.dirs, ∃ cluster, Reached (names ++ [child.name]) child cluster) ∧
      ∀ limit later, maxDepth - names.length ≤ limit →
        later.device.medium = session.device.medium →
          ((volume.survey ⟨limit, .abort, none⟩ below).perform later).1 =
            .ok ⟨⟨"/", dir.files, dir.dirs⟩, []⟩ := by
  intro Reached hreached
  have hwalk := below_of_survey h
  refine ⟨fun child hchild => ?_, fun limit later hlimit hlater => ?_⟩
  · obtain ⟨clusters, haccounts, -⟩ := Survey.accounts_below_abort hwalk
    obtain ⟨i, hi, rfl⟩ := List.getElem_of_mem hchild
    exact hreached.exists_child haccounts (List.getElem?_eq_getElem hi)
  · exact (volume.gives_survey session rfl below later hlater).1.trans
      (Survey.below_of_descends hwalk hreached hlimit)

/-- What the tree of the specimen has below the directory A is also what a survey of A finds, with
a limit that is one less. -/
theorem survey_below_specimen :
    let session : Session := .start (.ofImage Specimen.sound 256)
    let a : Dir := ⟨"A", [⟨"E", 1, 7⟩], [⟨"F", [], []⟩]⟩
    ((Specimen.volume.survey ⟨2, .abort, none⟩ 2).perform session).1 = .ok ⟨Specimen.tree, []⟩ ∧
      Survey.Descends (fun cluster => ((Specimen.volume.readDir cluster).perform session).1)
        (fun _ _ _ => True) Specimen.tree 2 ["A"] a 3 ∧
      ((Specimen.volume.survey ⟨1, .abort, none⟩ 3).perform session).1 =
        .ok ⟨⟨"/", a.files, a.dirs⟩, []⟩ := by
  intro session a
  have hsurvey : ((Specimen.volume.survey ⟨2, .abort, none⟩ 2).perform session).1 =
      .ok ⟨Specimen.tree, []⟩ := Survey.perform_survey_sound
  have hdescends : Survey.Descends
      (fun cluster => ((Specimen.volume.readDir cluster).perform session).1)
      (fun _ _ _ => True) Specimen.tree 2 ["A"] a 3 :=
    Survey.descends_specimen trivial
  exact ⟨hsurvey, hdescends,
    (survey_below hsurvey hdescends).2 1 session (by decide) rfl⟩

end Volume

end Fat32
