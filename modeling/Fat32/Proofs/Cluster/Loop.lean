import Fat32.Proofs.Cluster.Calls

/-!
# Loops over chains

Going on for as long as a chain yields something, without a bound on the number of items. Such a
loop ends by itself, after no more clusters than the volume has, so the bound with which loops
are run never ends one.
-/

namespace Fat32

namespace Chain

variable {σ : Type}

/-- The loop that begins with a chain in a session visits the items, and then ends with the
outcome. -/
inductive Loops (volume : Volume) (visit : Except Error UInt32 → σ → Access (ForInStep σ)) :
    Chain → σ → Session → List (Except Error UInt32) → Except Error σ × Session → Prop
  | ended {chain next : Chain} {state : σ} {session later : Session} :
      (chain.advance volume).run session = ((none, next), later) →
      Loops volume visit chain state session [] (.ok state, later)
  | failed {chain next : Chain} {state : σ} {session called later : Session}
      {item : Except Error UInt32} {error : Error} :
      (chain.advance volume).run session = ((some item, next), called) →
      (visit item state).perform called = (.error error, later) →
      Loops volume visit chain state session [item] (.error error, later)
  | done {chain next : Chain} {state last : σ} {session called later : Session}
      {item : Except Error UInt32} :
      (chain.advance volume).run session = ((some item, next), called) →
      (visit item state).perform called = (.ok (.done last), later) →
      Loops volume visit chain state session [item] (.ok last, later)
  | yield {chain next : Chain} {state between : σ} {session called later : Session}
      {item : Except Error UInt32} {items : List (Except Error UInt32)}
      {outcome : Except Error σ × Session} :
      (chain.advance volume).run session = ((some item, next), called) →
      (visit item state).perform called = (.ok (.yield between), later) →
      Loops volume visit next between later items outcome →
      Loops volume visit chain state session (item :: items) outcome

variable {volume : Volume} {visit : Except Error UInt32 → σ → Access (ForInStep σ)}
  {start : UInt32} {path : List UInt32} {chain next : Chain} {state : σ}
  {session called later : Session} {item : Except Error UInt32}

/-! ## Loops with a bound -/

theorem perform_forEach_of_none (hcall : (chain.advance volume).run session = ((none, next), later))
    (limit : Nat) :
    (chain.forEach volume visit (limit + 1) state).perform session = (.ok state, later) := by
  rw [forEach, Access.perform_lift_bind, hcall]
  rfl

theorem perform_forEach_of_some
    (hcall : (chain.advance volume).run session = ((some item, next), called)) (limit : Nat) :
    (chain.forEach volume visit (limit + 1) state).perform session =
      match (visit item state).perform called with
      | (.error error, later) => (.error error, later)
      | (.ok (.done last), later) => (.ok last, later)
      | (.ok (.yield between), later) =>
          (next.forEach volume visit limit between).perform later := by
  rw [forEach, Access.perform_lift_bind, hcall]
  dsimp only
  rw [Access.perform_bind]
  rcases (visit item state).perform called with ⟨error | ⟨last | between⟩, later⟩ <;> rfl

/-- A bound of as many items as there are does not change how a loop ends. -/
theorem Loops.perform_forEach {items : List (Except Error UInt32)}
    {outcome : Except Error σ × Session}
    (h : Loops volume visit chain state session items outcome)
    (hchain : Yielded volume start path chain) {limit : Nat} (hlimit : items.length ≤ limit) :
    (chain.forEach volume visit limit state).perform session = outcome := by
  induction h generalizing path limit with
  | @ended chain next state session later hcall =>
      have hover : chain.Over := (hchain.call_eq_none_iff session).mp (by rw [call, hcall])
      cases limit with
      | zero =>
          obtain ⟨-, rfl⟩ := Prod.mk.inj ((hover.advance_eq session).symm.trans hcall)
          rfl
      | succ limit => exact perform_forEach_of_none hcall limit
  | failed hcall hvisit =>
      obtain ⟨limit, rfl⟩ := Nat.exists_eq_succ_of_ne_zero (Nat.ne_of_gt hlimit)
      rw [Nat.succ_eq_add_one, perform_forEach_of_some hcall, hvisit]
  | done hcall hvisit =>
      obtain ⟨limit, rfl⟩ := Nat.exists_eq_succ_of_ne_zero (Nat.ne_of_gt hlimit)
      rw [Nat.succ_eq_add_one, perform_forEach_of_some hcall, hvisit]
  | @yield chain next _ _ session called _ item _ _ hcall hvisit _ ih =>
      obtain ⟨limit, rfl⟩ := Nat.exists_eq_succ_of_ne_zero
        (Nat.ne_of_gt (Nat.lt_of_lt_of_le (Nat.succ_pos _) hlimit))
      obtain ⟨path', hnext⟩ := hchain.exists_call session
      rw [call, hcall] at hnext
      rw [Nat.succ_eq_add_one, perform_forEach_of_some hcall, hvisit]
      exact ih hnext (Nat.le_of_succ_le_succ hlimit)

/-! ## The number of items -/

def clustersOf (items : List (Except Error UInt32)) : List UInt32 :=
  items.filterMap Except.toOption

theorem clustersOf_cons (item : Except Error UInt32) (items : List (Except Error UInt32)) :
    clustersOf (item :: items) = clustersOf [item] ++ clustersOf items := by
  cases item <;> rfl

theorem Yielded.of_call (h : Yielded volume start path chain)
    (hcall : (chain.advance volume).run session = ((some item, next), called)) :
    Yielded volume start (path ++ clustersOf [item]) next := by
  rcases h.call_cases session with ⟨-, hitem⟩ | ⟨-, error, last, hitem, -, hlast⟩ |
    ⟨-, cluster, more, hitem, -, hmore⟩ <;> rw [call, hcall] at hitem
  · simp at hitem
  · obtain ⟨rfl, rfl⟩ : item = _ ∧ next = _ := by simpa using hitem
    exact (List.append_nil path).symm ▸ hlast
  · obtain ⟨rfl, rfl⟩ : item = _ ∧ next = _ := by simpa using hitem
    exact hmore

namespace Loops

variable {items : List (Except Error UInt32)} {outcome : Except Error σ × Session}

theorem length_clustersOf (h : Loops volume visit chain state session items outcome)
    (hchain : Yielded volume start path chain) :
    path.length + (clustersOf items).length ≤ volume.clusterCount.toNat := by
  induction h generalizing path with
  | ended _ => exact hchain.length_le
  | failed hcall _ => simpa using (hchain.of_call hcall).length_le
  | done hcall _ => simpa using (hchain.of_call hcall).length_le
  | yield hcall _ _ ih =>
      have hrest := ih (hchain.of_call hcall)
      rw [clustersOf_cons, List.length_append]
      rw [List.length_append] at hrest
      omega

theorem eq_nil_of_over (h : Loops volume visit chain state session items outcome)
    (hover : chain.Over) : items = [] := by
  have hnone {item : Except Error UInt32} {next : Chain} {called : Session} :
      (chain.advance volume).run session ≠ ((some item, next), called) := by
    intro hcall
    rw [hover.advance_eq session] at hcall
    cases hcall
  cases h with
  | ended _ => rfl
  | failed hcall _ => exact absurd hcall hnone
  | done hcall _ => exact absurd hcall hnone
  | yield hcall _ _ => exact absurd hcall hnone

theorem length_le_succ (h : Loops volume visit chain state session items outcome)
    (hchain : Yielded volume start path chain) :
    items.length ≤ (clustersOf items).length + 1 := by
  induction h generalizing path with
  | ended _ => exact Nat.zero_le _
  | failed _ _ => exact Nat.le_add_left _ _
  | done _ _ => exact Nat.le_add_left _ _
  | @yield chain next _ _ session _ _ item _ _ hcall _ hrest ih =>
      have hnext := ih (hchain.of_call hcall)
      cases item with
      | ok cluster => simpa [clustersOf, Except.toOption] using hnext
      | error error =>
          have hover : next.Over := by
            have hlast : (chain.call volume session).2.Over :=
              (hchain.over_call_iff session).mpr (.inr (.inl ⟨error, by rw [call, hcall]⟩))
            rwa [call, hcall] at hlast
          rw [hrest.eq_nil_of_over hover]
          exact Nat.le_add_left _ _

end Loops

/-! ## Every loop ends -/

theorem exists_loops_of_some
    (hcall : (chain.advance volume).run session = ((some item, next), called))
    (hnext : ∀ state session, ∃ items outcome,
      Loops volume visit next state session items outcome) :
    ∃ items outcome, Loops volume visit chain state session items outcome := by
  rcases hvisit : (visit item state).perform called with ⟨error | ⟨last | between⟩, later⟩
  · exact ⟨_, _, .failed hcall hvisit⟩
  · exact ⟨_, _, .done hcall hvisit⟩
  · obtain ⟨items, outcome, hloops⟩ := hnext between later
    exact ⟨_, outcome, .yield hcall hvisit hloops⟩

/-- A loop ends, for each cluster that it visits is one of those that are left, of which there are
no more than `left`. -/
theorem Yielded.exists_loops (h : Yielded volume start path chain)
    (visit : Except Error UInt32 → σ → Access (ForInStep σ)) (left : Nat)
    (hleft : volume.clusterCount.toNat ≤ path.length + left) (state : σ) (session : Session) :
    ∃ items outcome, Loops volume visit chain state session items outcome := by
  induction left using Nat.strong_induction_on generalizing path chain state session with
  | _ left ih =>
  rcases hcall : (chain.advance volume).run session with ⟨⟨item?, next⟩, called⟩
  rcases h.call_cases session with ⟨hover, -⟩ | ⟨-, error, last, hitem, hover, -⟩ |
    ⟨-, cluster, more, hitem, -, hmore⟩
  · exact ⟨[], _, .ended (hover.advance_eq session)⟩
  · obtain ⟨rfl, rfl⟩ : item? = _ ∧ next = _ := by simpa [call, hcall] using hitem
    exact exists_loops_of_some hcall fun _ session => ⟨[], _, .ended (hover.advance_eq session)⟩
  · obtain ⟨rfl, rfl⟩ : item? = _ ∧ next = _ := by simpa [call, hcall] using hitem
    have hcount := hmore.length_le
    rw [List.length_append, List.length_singleton] at hcount
    refine exists_loops_of_some hcall (ih (left - 1) (by omega) hmore ?_)
    rw [List.length_append, List.length_singleton]
    omega

end Chain

end Fat32
