import Fat32.Proofs.Performing
import Fat32.Tree.Survey

/-!
# Calling off

A deadline does nothing but call a reading off. Until then the reading does what it does without
a deadline, so what is known of surveys that come to an end is the same with one and without.
-/

namespace Fat32

/-- In every session the first access is called off, or does just what the second does. -/
def Access.CalledOffOr {α : Type} (access other : Access α) : Prop :=
  ∀ session, (∃ path, (access.perform session).1 = .error (.cancelled path)) ∨
    access.perform session = other.perform session

namespace Access.CalledOffOr

variable {α β : Type}

theorem refl (access : Access α) : access.CalledOffOr access := fun _ => .inr rfl

theorem bind {access other : Access α} {next otherNext : α → Access β}
    (h : access.CalledOffOr other) (hnext : ∀ value, (next value).CalledOffOr (otherNext value)) :
    (access >>= next).CalledOffOr (other >>= otherNext) := by
  intro session
  rw [perform_bind, perform_bind]
  rcases h session with ⟨path, hoff⟩ | heq
  · left
    obtain ⟨later, hperform⟩ : ∃ later,
        access.perform session = (.error (.cancelled path), later) := ⟨_, Prod.ext hoff rfl⟩
    exact ⟨path, by rw [hperform]⟩
  · rw [heq]
    rcases other.perform session with ⟨error | value, later⟩
    · exact .inr rfl
    · exact hnext value later

theorem lift_bind (action : StateM Session α) {next otherNext : α → Access β}
    (hnext : ∀ value, (next value).CalledOffOr (otherNext value)) :
    (liftM action >>= next : Access β).CalledOffOr (liftM action >>= otherNext) := by
  intro session
  rw [perform_lift_bind, perform_lift_bind]
  exact hnext _ _

theorem eq_of_ok {access other : Access α} {session later : Session} {value : α}
    (h : access.CalledOffOr other) (hok : access.perform session = (.ok value, later)) :
    other.perform session = (.ok value, later) := by
  rcases h session with ⟨path, hoff⟩ | heq
  · simp [hok] at hoff
  · rw [← heq, hok]

end Access.CalledOffOr

open Access.CalledOffOr

/-! ## Reading directories -/

theorem Session.calledOffOr_checkDeadline (deadline : Option Nat) (path : String) :
    (checkDeadline deadline path).CalledOffOr (checkDeadline none path) := by
  intro session
  by_cases hreached : deadline.any (· ≤ session.device.readCount) = true
  · left
    refine ⟨path, ?_⟩
    change ((if deadline.any (· ≤ session.device.readCount) = true then
      (throw (Error.cancelled path) : Access Unit) else pure ()).perform session).1 = _
    rw [if_pos hreached]
    rfl
  · right
    change (if deadline.any (· ≤ session.device.readCount) = true then
      (throw (Error.cancelled path) : Access Unit) else pure ()).perform session = _
    rw [if_neg hreached]
    rfl

theorem Chain.calledOffOr_forEach {σ : Type} {volume : Volume}
    {visit other : Except Error UInt32 → σ → Access (ForInStep σ)}
    (h : ∀ item state, (visit item state).CalledOffOr (other item state)) (limit : Nat)
    (chain : Chain) (state : σ) :
    (chain.forEach volume visit limit state).CalledOffOr
      (chain.forEach volume other limit state) := by
  induction limit generalizing chain state with
  | zero => exact refl _
  | succ limit ih =>
      refine lift_bind _ fun (item, next) => ?_
      cases item with
      | none => exact refl _
      | some item =>
          refine (h item state).bind fun step => ?_
          cases step with
          | done state => exact refl _
          | yield state => exact ih next state

namespace Volume

variable (volume : Volume) (deadline : Option Nat) (path : String)

theorem calledOffOr_decodeNext (item : Except Error UInt32) (state : Decoder × Array Entry) :
    (volume.decodeNext deadline path item state).CalledOffOr
      (volume.decodeNext none path item state) :=
  (Session.calledOffOr_checkDeadline deadline path).bind fun _ => refl _

theorem calledOffOr_readDirectory (cluster : UInt32) :
    (volume.readDirectory deadline path cluster).CalledOffOr
      (volume.readDirectory none path cluster) :=
  (Chain.calledOffOr_forEach (volume.calledOffOr_decodeNext deadline path) _ _ _).bind
    fun _ => refl _

end Volume

/-! ## Surveys -/

namespace Survey

def Options.unhurried (options : Options) : Options := { options with deadline := none }

variable (volume : Volume) (options : Options)

theorem visit_calledOff_or (reached : Std.TreeSet UInt32) (task : Task) (session : Session) :
    (∃ path, ((visit volume options reached task).run session).1.1 = .error (.cancelled path)) ∨
      (visit volume options reached task).run session =
        (visit volume options.unhurried reached task).run session := by
  have hrefusal : task.refusal? options.unhurried = task.refusal? options := rfl
  simp only [visit, hrefusal]
  cases task.refusal? options with
  | some error => exact .inr rfl
  | none =>
      dsimp only
      split
      · exact .inr rfl
      · rcases volume.calledOffOr_readDirectory options.deadline task.path task.cluster session with
          hoff | heq
        · exact .inl hoff
        · right
          rw [Session.run_bind, Session.run_bind]
          have hread : (volume.readDirectory options.deadline task.path task.cluster).run.run
              session = (volume.readDirectory none task.path task.cluster).run.run session := heq
          rw [hread]
          rfl

theorem calledOffOr_step (task : Task) (rest : List Task) (progress : Progress) :
    (step volume options task rest progress).CalledOffOr
      (step volume options.unhurried task rest progress) := by
  intro session
  rw [step, step, Access.perform_lift_bind, Access.perform_lift_bind]
  rcases visit_calledOff_or volume options progress.reached task session with ⟨path, hoff⟩ | heq
  · -- no policy skips a directory whose reading was called off
    refine .inl ⟨path, ?_⟩
    simp only [hoff]
    rw [if_neg fun hskip => Bool.false_ne_true hskip.2.1]
    rfl
  · rw [heq]
    exact .inr rfl

theorem calledOffOr_run (limit : Nat) (progress : Progress) :
    (run volume options limit progress).CalledOffOr
      (run volume options.unhurried limit progress) := by
  induction limit generalizing progress with
  | zero => exact refl _
  | succ limit ih =>
      rw [run, run]
      cases progress.agenda with
      | nil => exact refl _
      | cons task rest => exact (calledOffOr_step volume options task rest progress).bind ih

theorem calledOffOr_survey (cluster : UInt32) :
    (volume.survey options cluster).CalledOffOr (volume.survey options.unhurried cluster) :=
  (calledOffOr_run volume options _ _).bind fun _ => refl _

end Survey

end Fat32
