import Fat32.Proofs.Medium

/-!
# Coupled computations

Two computations, each over an unchanging medium of its own, that come to like values whatever
was read and reported before. Such computations are compared step by step: what follows two like
values has to be coupled again, and neither medium changes on the way.
-/

namespace Fat32

/-! ## Like results -/

/-- The same value, or errors that count as the same. -/
inductive Alike {α : Type} (same : Error → Error → Prop) : Except Error α → Except Error α → Prop
  | ok (value : α) : Alike same (.ok value) (.ok value)
  | error {error other : Error} : same error other → Alike same (.error error) (.error other)

namespace Alike

variable {α β : Type} {same : Error → Error → Prop} {result other : Except Error α}

theorem refl (hrefl : ∀ error, same error error) (result : Except Error α) :
    Alike same result result := by
  cases result with
  | error error => exact .error (hrefl error)
  | ok value => exact .ok value

theorem symm (hsymm : ∀ {error other}, same error other → same other error)
    (h : Alike same result other) : Alike same other result := by
  cases h with
  | ok value => exact .ok value
  | error herror => exact .error (hsymm herror)

theorem trans {third : Except Error α}
    (htrans : ∀ {error other third}, same error other → same other third → same error third)
    (h : Alike same result other) (hthird : Alike same other third) : Alike same result third := by
  cases h with
  | ok value => exact hthird
  | error herror =>
      cases hthird with
      | error hother => exact .error (htrans herror hother)

theorem bind {next : α → Except Error β} (h : Alike same result other)
    (hnext : ∀ value, Alike same (next value) (next value)) :
    Alike same (result.bind next) (other.bind next) := by
  cases h with
  | ok value => exact hnext value
  | error herror => exact .error herror

theorem map (f : α → β) (h : Alike same result other) :
    Alike same (result.map f) (other.map f) := by
  cases h with
  | ok value => exact .ok (f value)
  | error herror => exact .error herror

theorem eq (h : Alike (· = ·) result other) : result = other := by
  cases h with
  | ok value => rfl
  | error herror => rw [herror]

theorem eq_ok {value : α} (h : Alike same result other) (hok : result = .ok value) :
    other = .ok value := by
  cases h with
  | ok _ => exact hok
  | error _ => contradiction

end Alike

def AlikeBeside {α β : Type} (same : Error → Error → Prop) (result other : Except Error α × β) :
    Prop :=
  Alike same result.1 other.1 ∧ result.2 = other.2

/-! ## Coupling -/

/-- In any two sessions over the two media the computations come to values that are alike, and
keep the media. -/
def Coupled {α : Type} (first second : Device) (like : α → α → Prop)
    (action other : StateM Session α) : Prop :=
  ∀ s t : Session, s.device.medium = first → t.device.medium = second →
    like (action.run s).1 (other.run t).1 ∧
      (action.run s).2.device.medium = first ∧ (other.run t).2.device.medium = second

def Access.AlikeOn {α : Type} (same : Error → Error → Prop) (first second : Device)
    (access : Access α) : Prop :=
  Coupled first second (Alike same) access.run access.run

theorem Access.AlikeOn.gives {α : Type} {access : Access α} {session : Session}
    (h : access.AlikeOn (· = ·) session.device.medium session.device.medium) :
    session.device.medium.Gives access.run (access.perform session).1 := by
  intro later hlater
  obtain ⟨halike, -, hmedium⟩ := h session later rfl hlater
  exact ⟨halike.eq.symm, hmedium⟩

namespace Coupled

variable {α β : Type} {first second : Device} {same : Error → Error → Prop}
  {like : α → α → Prop}

theorem pure {value other : α} (h : like value other) :
    Coupled first second like (Pure.pure value) (Pure.pure other) :=
  fun _ _ hs ht => ⟨h, hs, ht⟩

theorem bind {likeNext : β → β → Prop} {action other : StateM Session α}
    {next otherNext : α → StateM Session β} (h : Coupled first second like action other)
    (hnext : ∀ a b, like a b → Coupled first second likeNext (next a) (otherNext b)) :
    Coupled first second likeNext (action >>= next) (other >>= otherNext) := by
  intro s t hs ht
  obtain ⟨hlike, haction, hother⟩ := h s t hs ht
  exact hnext _ _ hlike _ _ haction hother

theorem imp {like' : α → α → Prop} {action other : StateM Session α}
    (h : Coupled first second like action other) (himp : ∀ a b, like a b → like' a b) :
    Coupled first second like' action other := by
  intro s t hs ht
  obtain ⟨hlike, hmedia⟩ := h s t hs ht
  exact ⟨himp _ _ hlike, hmedia⟩

theorem report (events others : List Event) :
    Coupled first second (· = ·) (Session.report events) (Session.report others) :=
  fun _ _ hs ht => ⟨rfl, hs, ht⟩

theorem of_gives {action other : StateM Session α} {value otherValue : α}
    (haction : first.Gives action value) (hother : second.Gives other otherValue)
    (h : like value otherValue) : Coupled first second like action other := by
  intro s t hs ht
  obtain ⟨hvalue, hfirst⟩ := haction s hs
  obtain ⟨hotherValue, hsecond⟩ := hother t ht
  rw [hvalue, hotherValue]
  exact ⟨h, hfirst, hsecond⟩

/-! ### Accesses -/

theorem access_pure (value : α) :
    Coupled first second (Alike same) (Pure.pure value : Access α).run
      (Pure.pure value : Access α).run :=
  pure (.ok value)

theorem throw {error other : Error} (h : same error other) :
    Coupled first second (Alike same) (MonadExcept.throw error : Access α).run
      (MonadExcept.throw other : Access α).run :=
  pure (.error h)

theorem lift_bind {action other : StateM Session α} {next otherNext : α → Access β}
    (h : Coupled first second like action other)
    (hnext : ∀ a b, like a b →
      Coupled first second (Alike same) (next a).run (otherNext b).run) :
    Coupled first second (Alike same) (liftM action >>= next : Access β).run
      (liftM other >>= otherNext : Access β).run := by
  intro s t hs ht
  obtain ⟨hlike, haction, hother⟩ := h s t hs ht
  exact hnext _ _ hlike _ _ haction hother

theorem access_bind {access other : Access α} {next otherNext : α → Access β}
    (h : Coupled first second (Alike same) access.run other.run)
    (hnext : ∀ value, Coupled first second (Alike same) (next value).run (otherNext value).run) :
    Coupled first second (Alike same) (access >>= next).run (other >>= otherNext).run := by
  rw [ExceptT.run_bind, ExceptT.run_bind]
  refine h.bind fun result otherResult hresult => ?_
  cases hresult with
  | ok value => exact hnext value
  | error herror => exact pure (.error herror)

theorem of_except {result other : Except Error α} {next : α → Access β}
    (h : Alike same result other)
    (hnext : ∀ value, Coupled first second (Alike same) (next value).run (next value).run) :
    Coupled first second (Alike same) (liftM result >>= next : Access β).run
      (liftM other >>= next : Access β).run := by
  cases h with
  | ok value => exact hnext value
  | error herror => exact throw herror

end Coupled

end Fat32
