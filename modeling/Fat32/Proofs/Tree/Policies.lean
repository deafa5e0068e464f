import Fat32.Proofs.Tree.Accounts

/-!
# Failures that end a survey and failures that it skips

A survey that any failure ends and one that skips what it can do the same up to the first
directory that fails. There the first one ends with the error of that directory, while the other
lists it and goes on, or ends with the same error where that error is not the directory's own.
-/

namespace Fat32

namespace Walk

open Survey (Task Skipped)

variable {α β : Type}

/-- What a strict reading and a lenient one come to, where `before` was skipped already. Of the
results, `skipped` tells what was skipped on the way to them. -/
inductive Lenience (skipped : α → List Skipped) (before : List Skipped) :
    Except Error α → Except Error α → Prop
  | same {value : α} : skipped value = before → Lenience skipped before (.ok value) (.ok value)
  | ended {error : Error} : error.isSubtreeLocal = false →
      Lenience skipped before (.error error) (.error error)
  | endedLater {error other : Error} : error.isSubtreeLocal → other.isSubtreeLocal = false →
      Lenience skipped before (.error error) (.error other)
  | skipped {path : String} {error : Error} {rest : List Skipped} {value : α} :
      error.isSubtreeLocal → (∀ skip ∈ rest, skip.error.isSubtreeLocal) →
      skipped value = before ++ ⟨path, error⟩ :: rest →
      Lenience skipped before (.error error) (.ok value)

namespace Lenience

variable {skipped : α → List Skipped} {skippedNext : β → List Skipped} {before : List Skipped}
  {strict lenient : Except Error α}

theorem bind (h : Lenience skipped before strict lenient) {next other : α → Except Error β}
    (hnext : ∀ value, Lenience skippedNext (skipped value) (next value) (other value)) :
    Lenience skippedNext before (strict >>= next) (lenient >>= other) := by
  cases h with
  | @same value hvalue =>
      have hrest := hnext value
      rw [hvalue] at hrest
      exact hrest
  | ended herror => exact .ended herror
  | endedLater herror hother => exact .endedLater herror hother
  | @skipped path error rest value herror hrest hvalue =>
      -- the strict reading has ended, so of what follows only the lenient part counts
      change Lenience skippedNext before (.error error) (other value)
      have hgoes := hnext value
      generalize next value = nextStrict, other value = nextLenient at hgoes ⊢
      cases hgoes with
      | same hsame => exact .skipped herror hrest (hsame.trans hvalue)
      | ended hended => exact .endedLater herror hended
      | endedLater _ hended => exact .endedLater herror hended
      | @skipped path' error' more value' herror' hmore hlater =>
          have hmet : skippedNext value' =
              before ++ ⟨path, error⟩ :: (rest ++ ⟨path', error'⟩ :: more) := by
            rw [hlater, hvalue, List.append_assoc, List.cons_append]
          exact .skipped herror
            (List.forall_mem_append.mpr ⟨hrest, List.forall_mem_cons.mpr ⟨herror', hmore⟩⟩) hmet

theorem skipped_of_ok {value : α} (h : Lenience skipped before (.ok value) lenient) :
    skipped value = before := by
  cases h with
  | same hvalue => exact hvalue

theorem strict_eq {value : α} (h : Lenience skipped [] strict (.ok value)) :
    strict =
      match skipped value with
      | [] => .ok value
      | first :: _ => .error first.error := by
  cases h with
  | same hvalue => rw [hvalue]
  | skipped _ _ hvalue => rw [hvalue, List.nil_append]

end Lenience

/-! ## Walks -/

theorem giveUp_abort (task : Task) (error : Error) (trail : Trail) :
    giveUp .abort task error trail = .error error :=
  if_neg (by simp)

theorem lenience_giveUp {task : Task} (hbelow : task.depth ≠ 0) (error : Error) (trail : Trail) :
    Lenience (fun value => value.2.skipped) trail.skipped (giveUp .abort task error trail)
      (giveUp .skip task error trail) := by
  rw [giveUp_abort, giveUp]
  cases hlocal : error.isSubtreeLocal with
  | true =>
      rw [if_pos ⟨rfl, rfl, hbelow⟩]
      exact .skipped hlocal (List.forall_mem_nil _) rfl
  | false =>
      rw [if_neg (by simp)]
      exact .ended hlocal

variable {read : UInt32 → Except Error (List Entry)} {maxDepth : Nat}

theorem lenience_visit :
    (∀ (task : Task) (trail : Trail), task.depth ≠ 0 →
      Lenience (fun value => value.2.skipped) trail.skipped
        (visit read maxDepth .abort task trail) (visit read maxDepth .skip task trail)) ∧
    ∀ (task : Task) (entries : List Entry) (trail : Trail),
      Lenience (fun value => value.2.skipped) trail.skipped
        (visitEach read maxDepth .abort task entries trail)
        (visitEach read maxDepth .skip task entries trail) := by
  apply visit.mutual_induct read maxDepth
  case case1 =>
    intro task trail hrefused hbelow
    rw [visit, visit, if_pos hrefused, if_pos hrefused]
    exact lenience_giveUp hbelow _ trail
  case case2 =>
    intro task trail hallowed hattempted hbelow
    rw [visit, visit, if_neg hallowed, if_neg hallowed, if_pos hattempted, if_pos hattempted]
    exact lenience_giveUp hbelow _ trail
  case case3 =>
    intro task trail hallowed hattempted error hread hbelow
    rw [visit, visit, if_neg hallowed, if_neg hallowed, if_neg hattempted, if_neg hattempted]
    simp only [hread]
    exact lenience_giveUp hbelow error { trail with attempted := insert task.cluster _ }
  case case4 =>
    intro task trail hallowed hattempted attempted entries hread ih _
    rw [visit, visit, if_neg hallowed, if_neg hallowed, if_neg hattempted, if_neg hattempted]
    simp only [hread]
    exact ih.bind fun _ => .same rfl
  case case5 =>
    intro task trail
    rw [visitEach, visitEach]
    exact .same rfl
  case case6 =>
    intro task trail entry entries ihvisit ihrest
    rw [visitEach_cons, visitEach_cons]
    exact (ihvisit (Nat.succ_ne_zero _)).bind fun visited =>
      (ihrest visited.2).bind fun _ => .same rfl

theorem lenience_below {cluster : UInt32} {entries : List Entry}
    (hread : read cluster = .ok entries) :
    Lenience Survey.skipped [] (below read maxDepth .abort cluster)
      (below read maxDepth .skip cluster) := by
  have hallowed : ¬ ((Task.root cluster).depth > maxDepth ∨
      (Task.root cluster).cluster ∈ (Task.root cluster).above) := by
    simp [Task.depth, Task.root]
  have hroot : Lenience (fun value => value.2.skipped) []
      (visit read maxDepth .abort (.root cluster) ⟨∅, []⟩)
      (visit read maxDepth .skip (.root cluster) ⟨∅, []⟩) := by
    rw [visit, visit, if_neg hallowed, if_neg hallowed, if_neg (Finset.notMem_empty _),
      if_neg (Finset.notMem_empty _)]
    simp only [show read (Task.root cluster).cluster = .ok entries from hread]
    exact (lenience_visit.2 _ _ ⟨_, []⟩).bind fun _ => .same rfl
  exact hroot.bind fun _ => .same rfl

theorem below_of_error (policy : FailurePolicy) {cluster : UInt32} {error : Error}
    (hread : read cluster = .error error) : below read maxDepth policy cluster = .error error := by
  have hallowed : ¬ ((Task.root cluster).depth > maxDepth ∨
      (Task.root cluster).cluster ∈ (Task.root cluster).above) := by
    simp [Task.depth, Task.root]
  have hroot : visit read maxDepth policy (.root cluster) ⟨∅, []⟩ = .error error := by
    rw [visit, if_neg hallowed, if_neg (Finset.notMem_empty _)]
    simp only [show read (Task.root cluster).cluster = .error error from hread]
    exact if_neg fun hskip => hskip.2.2 rfl
  rw [below_eq, hroot]
  rfl

theorem skipped_of_below_abort {cluster : UInt32} {survey : Survey}
    (h : below read maxDepth .abort cluster = .ok survey) : survey.skipped = [] := by
  cases hread : read cluster with
  | error error => simp [below_of_error .abort hread] at h
  | ok entries => exact (h ▸ lenience_below hread).skipped_of_ok

end Walk

/-! ## Surveys -/

namespace Survey

/-- How a survey that any failure ends and one that skips what it can compare, where `own` is the
reading of the directory surveyed. -/
structure Comparable (own : Except Error (List Entry)) (strict lenient : Except Error Survey) :
    Prop where
  ok_iff : ∀ survey, strict = .ok survey ↔ lenient = .ok survey ∧ survey.skipped = []
  /-- Neither an error that is not a directory's own is skipped, nor the directory surveyed. -/
  error_of_strict : ∀ error, strict = .error error →
    error.isSubtreeLocal = false ∨ own = .error error → lenient = .error error
  /-- Any other error is the first that is skipped, unless one that cannot be follows. -/
  of_strict : ∀ error, strict = .error error → error.isSubtreeLocal → own ≠ .error error →
    (∃ other, lenient = .error other ∧ other.isSubtreeLocal = false) ∨
      ∃ survey first rest, lenient = .ok survey ∧ survey.skipped = first :: rest ∧
        first.error = error
  skipped_local : ∀ survey, lenient = .ok survey →
    ∀ skipped ∈ survey.skipped, skipped.error.isSubtreeLocal
  of_lenient : ∀ error, lenient = .error error →
    error.isSubtreeLocal = false ∨ own = .error error

theorem Comparable.of_own_error (error : Error) :
    Comparable (.error error) (.error error) (.error error) where
  ok_iff _ := ⟨nofun, nofun⟩
  error_of_strict _ h _ := h
  of_strict _ h _ hown := absurd (congrArg _ (Except.error.inj h)) hown
  skipped_local _ := nofun
  of_lenient _ h := .inr (congrArg _ (Except.error.inj h))

theorem Comparable.of_lenience {strict lenient : Except Error Survey} {entries : List Entry}
    (h : Walk.Lenience Survey.skipped [] strict lenient) :
    Comparable (.ok entries) strict lenient := by
  cases h with
  | same hskipped =>
      constructor
      · exact fun survey => ⟨fun hok => ⟨hok, by rw [← Except.ok.inj hok, hskipped]⟩, And.left⟩
      · nofun
      · nofun
      · intro survey hok skipped hmem
        rw [← Except.ok.inj hok, hskipped] at hmem
        contradiction
      · nofun
  | ended herror =>
      constructor
      · exact fun _ => ⟨nofun, nofun⟩
      · exact fun _ heq _ => heq
      · intro error heq hlocal
        rw [← Except.error.inj heq, herror] at hlocal
        contradiction
      · nofun
      · exact fun error heq => .inl (by rw [← Except.error.inj heq, herror])
  | endedLater herror hother =>
      constructor
      · exact fun _ => ⟨nofun, nofun⟩
      · rintro error heq (hended | hown)
        · rw [← Except.error.inj heq, herror] at hended
          contradiction
        · contradiction
      · exact fun _ _ _ _ => .inl ⟨_, rfl, hother⟩
      · nofun
      · exact fun error heq => .inl (by rw [← Except.error.inj heq, hother])
  | skipped herror hrest hskipped =>
      constructor
      · refine fun survey => ⟨nofun, fun ⟨hok, hnone⟩ => ?_⟩
        rw [← Except.ok.inj hok, hskipped] at hnone
        contradiction
      · rintro error heq (hended | hown)
        · rw [← Except.error.inj heq, herror] at hended
          contradiction
        · contradiction
      · exact fun error heq _ _ => .inr ⟨_, _, _, rfl, hskipped, Except.error.inj heq⟩
      · intro survey hok
        rw [← Except.ok.inj hok, hskipped]
        exact List.forall_mem_cons.mpr ⟨herror, hrest⟩
      · nofun

end Survey

namespace Volume

/-- A survey under either policy ends with the same tree where nothing fails. Otherwise the one
that skips ends with the error of the other one, or lists it first, or meets an error later that
cannot be skipped. -/
theorem survey_strict_lenient (volume : Volume) (maxDepth : Nat) (cluster : UInt32)
    {session later : Session} (hlater : later.device.medium = session.device.medium) :
    Survey.Comparable ((volume.readDir cluster).perform session).1
      ((volume.survey ⟨maxDepth, .abort, none⟩ cluster).perform session).1
      ((volume.survey ⟨maxDepth, .skip, none⟩ cluster).perform later).1 := by
  rw [volume.perform_survey rfl, volume.perform_survey hlater]
  cases hread : ((volume.readDir cluster).perform session).1 with
  | error error =>
      rw [Walk.below_of_error _ hread, Walk.below_of_error _ hread]
      exact .of_own_error error
  | ok entries => exact .of_lenience (Walk.lenience_below hread)

/-- The second way to one directory ends a survey of the specimen. A survey that goes on later
lists it first. -/
theorem survey_strict_lenient_specimen :
    let session : Session := .start (.ofImage Specimen.image 256)
    let (strict, later) := (Specimen.volume.survey ⟨2, .abort, none⟩ 2).perform session
    let lenient := ((Specimen.volume.survey ⟨2, .skip, none⟩ 2).perform later).1
    later.device.medium = session.device.medium ∧ strict = .error (.corruptChain 3 3) ∧
      Survey.Comparable ((Specimen.volume.readDir 2).perform session).1 strict lenient ∧
      ∃ survey first rest, lenient = .ok survey ∧ survey.skipped = first :: rest ∧
        first.error = .corruptChain 3 3 := by
  intro session
  have hunhurried : (Survey.Options.mk 2 .abort none).deadline = none := rfl
  have hlater := (Specimen.volume.gives_survey session hunhurried 2 session rfl).2
  have hstrict : ((Specimen.volume.survey ⟨2, .abort, none⟩ 2).perform session).1 =
      .error (.corruptChain 3 3) :=
    eq_error_of_map (f := fun _ => ()) (by decide +kernel)
  have hown : ((Specimen.volume.readDir 2).perform session).1 ≠ .error (.corruptChain 3 3) := by
    decide +kernel
  have hcomparable := survey_strict_lenient Specimen.volume 2 2 hlater
  refine ⟨hlater, hstrict, hcomparable, ?_⟩
  rcases hcomparable.of_strict _ hstrict rfl hown with ⟨other, hother, -⟩ | hskipped
  · have hends : (((Specimen.volume.survey ⟨2, .skip, none⟩ 2).perform session).1.map
        fun _ => ()) = .ok () := by
      decide +kernel
    rw [perform_survey _ hlater] at hother
    rw [perform_survey _ rfl, hother] at hends
    contradiction
  · exact hskipped

end Volume

end Fat32
