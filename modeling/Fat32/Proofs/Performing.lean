import Fat32.Session

/-!
# Performing accesses

What an access does in a session, put together from what its parts do.
-/

namespace Fat32

theorem Session.run_bind {α β : Type} (action : StateM Session α) (next : α → StateM Session β)
    (session : Session) : (action >>= next).run session =
      (next (action.run session).1).run (action.run session).2 :=
  rfl

theorem exists_of_bind_eq_ok {ε α β : Type} {first : Except ε α} {next : α → Except ε β}
    {value : β} (h : first >>= next = .ok value) : ∃ a, first = .ok a ∧ next a = .ok value := by
  cases first with
  | error error => contradiction
  | ok a => exact ⟨a, rfl, h⟩

theorem eq_ok_of_toOption {ε α : Type} {result : Except ε α} {value : α}
    (h : result.toOption = some value) : result = .ok value := by
  cases result with
  | error error => contradiction
  | ok other => rw [Option.some.inj h]

theorem eq_ok_of_toOption_map {ε α β : Type} {f : α → β} (hf : ∀ {a b}, f a = f b → a = b)
    {result : Except ε α} {value : α} (h : result.toOption.map f = some (f value)) :
    result = .ok value := by
  cases result with
  | error error => contradiction
  | ok other => rw [hf (Option.some.inj h)]

theorem eq_error_of_map {ε α β : Type} {f : α → β} {result : Except ε α} {error : ε}
    (h : result.map f = .error error) : result = .error error := by
  cases result with
  | error other => exact congrArg _ (Except.error.inj h)
  | ok value => contradiction

namespace Access

variable {α β : Type}

@[simp] theorem perform_pure (value : α) (session : Session) :
    (pure value : Access α).perform session = (.ok value, session) :=
  rfl

@[simp] theorem perform_throw (error : Error) (session : Session) :
    (throw error : Access α).perform session = (.error error, session) :=
  rfl

theorem perform_bind (access : Access α) (next : α → Access β) (session : Session) :
    (access >>= next).perform session =
      match access.perform session with
      | (.ok value, later) => (next value).perform later
      | (.error error, later) => (.error error, later) := by
  have hrun (session : Session) (access : Access β) :
      access.perform session = access.run.run session := rfl
  rw [hrun, ExceptT.run_bind, Session.run_bind, perform]
  rcases access.run.run session with ⟨error | value, later⟩ <;> rfl

theorem exists_of_perform_bind_eq_ok {access : Access α} {next : α → Access β} {session : Session}
    {value : β} (h : ((access >>= next).perform session).1 = .ok value) :
    ∃ a later, access.perform session = (.ok a, later) ∧
      ((next a).perform later).1 = .ok value := by
  rw [perform_bind] at h
  generalize access.perform session = performed at h ⊢
  rcases performed with ⟨error | a, later⟩
  · contradiction
  · exact ⟨a, later, rfl, h⟩

theorem perform_lift_bind (action : StateM Session α) (next : α → Access β) (session : Session) :
    (liftM action >>= next : Access β).perform session =
      (next (action.run session).1).perform (action.run session).2 := by
  rfl

theorem perform_get_bind (next : Session → Access α) (session : Session) :
    (get >>= next).perform session = (next session).perform session := by
  rfl

theorem perform_modifyGet_bind (f : Session → α × Session) (next : α → Access β)
    (session : Session) : (modifyGet f >>= next : Access β).perform session =
      (next (f session).1).perform (f session).2 := by
  rfl

theorem perform_report_bind (events : List Event) (next : Unit → Access α) (session : Session) :
    (liftM (Session.report events) >>= next : Access α).perform session =
      (next ()).perform { session with journal := session.journal ++ events } := by
  rfl

end Access

end Fat32
