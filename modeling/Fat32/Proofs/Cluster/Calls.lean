import Fat32.Proofs.Cluster.Path
import Fat32.Proofs.Performing

/-!
# Chains on a changing medium

A chain is taken call by call, and nothing is assumed of the device between two calls: each call
runs in a session of its own. There is then no table to follow, but what the chain itself
remembers is enough to keep the clusters that it yields apart and to end it once.
-/

namespace Fat32

namespace Chain

/-- What the chain yields when it is called in `session`, and the chain after the call. -/
def call (volume : Volume) (session : Session) (chain : Chain) :
    Option (Except Error UInt32) × Chain :=
  ((chain.advance volume).run session).1

def after (volume : Volume) (chain : Chain) (sessions : List Session) : Chain :=
  sessions.foldl (fun chain session => (chain.call volume session).2) chain

def taken (volume : Volume) : Chain → List Session → List (Option (Except Error UInt32))
  | _, [] => []
  | chain, session :: sessions =>
      (chain.call volume session).1 :: (chain.call volume session).2.taken volume sessions

/-- The call in `session` is the last that yields something: an error, or a cluster that is then
marked as the end of the chain. -/
def EndsIn (volume : Volume) (chain : Chain) (session : Session) : Prop :=
  (∃ error, (chain.call volume session).1 = some (.error error)) ∨
    ∃ cluster, (chain.call volume session).1 = some (.ok cluster) ∧
      ((chain.table.link volume cluster).run session).1.1 = .ok .endOfChain

def Over (chain : Chain) : Prop := chain.refused = none ∧ chain.due = none

variable {volume : Volume} {start : UInt32} {path : List UInt32} {chain : Chain}

/-! ## One call -/

theorem Over.advance_eq (h : chain.Over) (session : Session) :
    (chain.advance volume).run session = ((none, chain), session) := by
  obtain ⟨hrefused, hdue⟩ := h
  simp only [advance, hrefused, hdue]
  rfl

theorem Over.call_eq (h : chain.Over) (session : Session) :
    chain.call volume session = (none, chain) := by
  rw [call, h.advance_eq session]

theorem call_of_refused {error : Error} (h : chain.refused = some error) (session : Session) :
    chain.call volume session = (some (.error error), { chain with refused := none }) := by
  simp only [call, advance, h]
  rfl

theorem call_of_repeated {cluster : UInt32} (hrefused : chain.refused = none)
    (hdue : chain.due = some cluster) (hvisited : chain.visited.contains cluster = true)
    (session : Session) : chain.call volume session =
      (some (.error (.corruptChain chain.start cluster)), { chain with due := none }) := by
  simp only [call, advance, hrefused, hdue, hvisited]
  rfl

theorem call_of_new {cluster : UInt32} (hrefused : chain.refused = none)
    (hdue : chain.due = some cluster) (hnew : chain.visited.contains cluster = false)
    (session : Session) : chain.call volume session =
      let (link, table) := ((chain.table.link volume cluster).run session).1
      let next := { chain with due := none, visited := chain.visited.insert cluster, table }
      match link.bind (follow volume chain.start cluster) with
      | .error error => (some (.error error), next)
      | .ok (due, _) => (some (.ok cluster), { next with due }) := by
  simp only [call, advance, hrefused, hdue, hnew]
  rw [if_neg Bool.false_ne_true, Session.run_bind]
  rcases (chain.table.link volume cluster).run session with ⟨⟨link, table⟩, later⟩
  cases link.bind (follow volume chain.start cluster) <;> rfl

theorem follow_eq_ok {current : UInt32} {link : Link} {due : Option UInt32} {event : Event}
    (h : follow volume start current link = .ok (due, event)) :
    (∀ next ∈ due, volume.isDataCluster next) ∧ (due = none ↔ link = .endOfChain) := by
  cases link with
  | next cluster =>
      simp only [follow] at h
      split at h
      · next hdata =>
          obtain ⟨rfl, -⟩ := Prod.mk.inj (Except.ok.inj h)
          simpa using hdata
      · contradiction
  | endOfChain =>
      obtain ⟨rfl, -⟩ := Prod.mk.inj (Except.ok.inj h)
      simp
  | free => contradiction
  | reserved => contradiction
  | bad => contradiction

/-! ## What a chain has yielded -/

/-- The chain has yielded the clusters of `path`. It knows them all as visited, so whatever the
table says next, none of them comes again. -/
structure Yielded (volume : Volume) (start : UInt32) (path : List UInt32) (chain : Chain) :
    Prop where
  head : ∀ cluster ∈ path.head?, cluster = start
  data : ∀ cluster ∈ path, volume.isDataCluster cluster
  nodup : path.Nodup
  visited : ∀ cluster ∈ path, chain.visited.contains cluster = true
  due : ∀ cluster ∈ chain.due, volume.isDataCluster cluster ∧
    (path ++ [cluster]).head? = some start
  refused : chain.refused ≠ none → chain.due = none

theorem yielded_ofTable (volume : Volume) (table : Table) (start : UInt32) :
    Yielded volume start [] (ofTable volume table start) := by
  rw [ofTable]
  split
  · next hstart => exact ⟨by simp, by simp, .nil, by simp, by simpa using hstart, by simp⟩
  · exact ⟨by simp, by simp, .nil, by simp, by simp, by simp⟩

namespace Yielded

theorem length_le (h : Yielded volume start path chain) :
    path.length ≤ volume.clusterCount.toNat :=
  Volume.length_le_clusterCount h.data h.nodup

theorem idle (h : Yielded volume start path chain) {next : Chain} (hdue : next.due = none)
    (hvisited : ∀ cluster, chain.visited.contains cluster = true →
      next.visited.contains cluster = true) : Yielded volume start path next :=
  ⟨h.head, h.data, h.nodup, fun cluster hcluster => hvisited cluster (h.visited cluster hcluster),
    by simp [hdue], fun _ => hdue⟩

/-- All that a call can do: nothing more, once the chain is over; or else an error, which is the
last; or one more cluster, which is the last just when it is marked so. -/
theorem call_cases (h : Yielded volume start path chain) (session : Session) :
    (chain.Over ∧ chain.call volume session = (none, chain)) ∨
    (¬ chain.Over ∧ ∃ error next, chain.call volume session = (some (.error error), next) ∧
      next.Over ∧ Yielded volume start path next) ∨
    (¬ chain.Over ∧ ∃ cluster next, chain.call volume session = (some (.ok cluster), next) ∧
      (next.Over ↔ ((chain.table.link volume cluster).run session).1.1 = .ok .endOfChain) ∧
      Yielded volume start (path ++ [cluster]) next) := by
  cases hrefused : chain.refused with
  | some error =>
      have hdue := h.refused (by simp [hrefused])
      exact .inr (.inl ⟨by simp [Over, hrefused], error, _, call_of_refused hrefused session,
        ⟨rfl, hdue⟩, h.idle hdue fun _ hcluster => hcluster⟩)
  | none =>
  cases hdue : chain.due with
  | none => exact .inl ⟨⟨hrefused, hdue⟩, Over.call_eq ⟨hrefused, hdue⟩ session⟩
  | some cluster =>
  have hgoing : ¬ chain.Over := by simp [Over, hdue]
  obtain ⟨hdata, hhead⟩ := h.due cluster hdue
  cases hvisited : chain.visited.contains cluster with
  | true =>
      exact .inr (.inl ⟨hgoing, _, _, call_of_repeated hrefused hdue hvisited session,
        ⟨hrefused, rfl⟩, h.idle rfl fun _ hcluster => hcluster⟩)
  | false =>
  have hcall : chain.call volume session = _ := call_of_new hrefused hdue hvisited session
  rcases hlink : (chain.table.link volume cluster).run session with ⟨⟨link, table⟩, later⟩
  have hmore (c : UInt32) (hc : chain.visited.contains c = true) :
      (chain.visited.insert cluster).contains c = true := by
    rw [Std.TreeSet.contains_insert, hc, Bool.or_true]
  rw [hlink] at hcall
  cases hfollow : link.bind (follow volume chain.start cluster) with
  | error error =>
      simp only [hfollow] at hcall
      exact .inr (.inl ⟨hgoing, error, _, hcall, ⟨hrefused, rfl⟩, h.idle rfl hmore⟩)
  | ok next =>
      obtain ⟨due, event⟩ := next
      simp only [hfollow] at hcall
      obtain ⟨link, rfl⟩ : ∃ said, link = .ok said := by
        cases link with
        | error error => contradiction
        | ok said => exact ⟨said, rfl⟩
      obtain ⟨hnext, hlast⟩ := follow_eq_ok hfollow
      refine .inr (.inr ⟨hgoing, cluster, _, hcall, ?_, ?_⟩)
      · simpa [Over, hrefused, hlink] using hlast
      · have hnew : cluster ∉ path := fun hmem => by simp [h.visited cluster hmem] at hvisited
        refine ⟨by simp [hhead], ?_, ?_, ?_, ?_, by simp [hrefused]⟩
        · intro c hc
          rcases List.mem_append.mp hc with hc | hc
          · exact h.data c hc
          · rw [List.mem_singleton.mp hc]
            exact hdata
        · simpa using h.nodup.concat hnew
        · intro c hc
          rcases List.mem_append.mp hc with hc | hc
          · exact hmore c (h.visited c hc)
          · rw [List.mem_singleton.mp hc]
            exact Std.TreeSet.contains_insert_self
        · intro c hc
          refine ⟨hnext c hc, ?_⟩
          rw [List.head?_append_of_ne_nil _ (by simp)]
          exact hhead

theorem call_eq_none_iff (h : Yielded volume start path chain) (session : Session) :
    (chain.call volume session).1 = none ↔ chain.Over := by
  rcases h.call_cases session with ⟨hover, hcall⟩ | ⟨hgoing, _, _, hcall, -⟩ |
    ⟨hgoing, _, _, hcall, -⟩
  · simp [hcall, hover]
  · simp [hcall, hgoing]
  · simp [hcall, hgoing]

theorem over_call_iff (h : Yielded volume start path chain) (session : Session) :
    (chain.call volume session).2.Over ↔ chain.Over ∨ chain.EndsIn volume session := by
  rcases h.call_cases session with ⟨hover, hcall⟩ | ⟨hgoing, error, next, hcall, hnext, -⟩ |
    ⟨hgoing, cluster, next, hcall, hnext, -⟩
  · simp [hcall, hover]
  · simp [hcall, hnext, EndsIn]
  · simp [hcall, hnext, hgoing, EndsIn]

theorem exists_call (h : Yielded volume start path chain) (session : Session) :
    ∃ path', Yielded volume start path' (chain.call volume session).2 := by
  rcases h.call_cases session with ⟨-, hcall⟩ | ⟨-, error, next, hcall, -, hnext⟩ |
    ⟨-, cluster, next, hcall, -, hnext⟩
  · exact ⟨path, by simpa [hcall] using h⟩
  · exact ⟨path, by simpa [hcall] using hnext⟩
  · exact ⟨path ++ [cluster], by simpa [hcall] using hnext⟩

end Yielded

/-! ## Any number of calls -/

theorem Over.after_eq (h : chain.Over) (sessions : List Session) :
    chain.after volume sessions = chain := by
  induction sessions with
  | nil => rfl
  | cons session sessions ih =>
      rw [after, List.foldl_cons, h.call_eq session]
      exact ih

theorem Over.taken_eq (h : chain.Over) (sessions : List Session) :
    chain.taken volume sessions = List.replicate sessions.length none := by
  induction sessions with
  | nil => rfl
  | cons session sessions ih =>
      rw [taken, h.call_eq session, ih]
      rfl

namespace Yielded

theorem exists_after (h : Yielded volume start path chain) (sessions : List Session) :
    ∃ path', Yielded volume start path' (chain.after volume sessions) := by
  induction sessions generalizing chain path with
  | nil => exact ⟨path, h⟩
  | cons session sessions ih =>
      obtain ⟨path', hpath'⟩ := h.exists_call session
      exact ih hpath'

theorem over_after_iff (h : Yielded volume start path chain) (hgoing : ¬ chain.Over)
    (sessions : List Session) : (chain.after volume sessions).Over ↔
      ∃ before last later, sessions = before ++ last :: later ∧
        (chain.after volume before).EndsIn volume last := by
  induction sessions generalizing chain path with
  | nil => simpa [after] using hgoing
  | cons session sessions ih =>
      have hcons : chain.after volume (session :: sessions) =
          (chain.call volume session).2.after volume sessions := rfl
      have hnext := h.over_call_iff session
      obtain ⟨path', hpath'⟩ := h.exists_call session
      by_cases hlast : chain.EndsIn volume session
      · have hover := hnext.mpr (.inr hlast)
        refine ⟨fun _ => ⟨[], session, sessions, rfl, hlast⟩, fun _ => ?_⟩
        rwa [hcons, hover.after_eq sessions]
      · have hgoing' : ¬ (chain.call volume session).2.Over := by simp [hnext, hgoing, hlast]
        rw [hcons, ih hpath' hgoing']
        constructor
        · rintro ⟨before, last, later, rfl, hends⟩
          exact ⟨session :: before, last, later, rfl, hends⟩
        · rintro ⟨before, last, later, heq, hends⟩
          cases before with
          | nil =>
              obtain ⟨rfl, rfl⟩ := List.cons.inj heq
              exact absurd hends hlast
          | cons first before =>
              obtain ⟨rfl, rfl⟩ := List.cons.inj heq
              exact ⟨before, last, later, rfl, hends⟩

theorem taken_eq (h : Yielded volume start path chain) (sessions : List Session) :
    ∃ (clusters : List UInt32) (error? : Option Error) (idle : Nat) (final : Chain),
      chain.taken volume sessions = clusters.map (some ∘ .ok) ++
        (error?.map (some ∘ .error)).toList ++ List.replicate idle none ∧
      Yielded volume start (path ++ clusters) final := by
  induction sessions generalizing chain path with
  | nil => exact ⟨[], none, 0, chain, rfl, by simpa using h⟩
  | cons session sessions ih =>
      rcases h.call_cases session with ⟨hover, -⟩ | ⟨-, error, next, hcall, hover, hnext⟩ |
        ⟨-, cluster, next, hcall, -, hnext⟩
      · exact ⟨[], none, sessions.length + 1, chain, hover.taken_eq (session :: sessions),
          by simpa using h⟩
      · refine ⟨[], some error, sessions.length, next, ?_, by simpa using hnext⟩
        rw [taken, hcall, hover.taken_eq sessions]
        rfl
      · obtain ⟨clusters, error?, idle, final, htaken, hfinal⟩ := ih hnext
        refine ⟨cluster :: clusters, error?, idle, final, ?_, by simpa using hfinal⟩
        rw [taken, hcall, htaken]
        rfl

end Yielded

theorem not_over_ofTable (volume : Volume) (table : Table) (start : UInt32) :
    ¬ (ofTable volume table start).Over := by
  rw [ofTable]
  split <;> simp [Over]

/--
Whatever sector the table keeps at first, and however the device changes from call to call, a chain
yields distinct data clusters, of which the first is its start, then at most one error, and then
nothing. It yields nothing only then: in a call after one that gave an error or the last cluster of
the chain.
-/
theorem taken_orderly (volume : Volume) (table : Table) (start : UInt32)
    (sessions : List Session) :
    let chain := ofTable volume table start
    (∃ (clusters : List UInt32) (error? : Option Error) (idle : Nat),
      chain.taken volume sessions = clusters.map (some ∘ .ok) ++
        (error?.map (some ∘ .error)).toList ++ List.replicate idle none ∧
      clusters.Nodup ∧ (∀ cluster ∈ clusters, volume.isDataCluster cluster) ∧
      (∀ cluster ∈ clusters.head?, cluster = start) ∧
      clusters.length ≤ volume.clusterCount.toNat) ∧
    ∀ session, ((chain.after volume sessions).call volume session).1 = none ↔
      ∃ before last later, sessions = before ++ last :: later ∧
        (chain.after volume before).EndsIn volume last := by
  intro chain
  have hstart : Yielded volume start [] chain := yielded_ofTable volume table start
  refine ⟨?_, fun session => ?_⟩
  · obtain ⟨clusters, error?, idle, final, htaken, hfinal⟩ := hstart.taken_eq sessions
    exact ⟨clusters, error?, idle, htaken, hfinal.nodup, hfinal.data, hfinal.head,
      hfinal.length_le⟩
  · obtain ⟨path, hpath⟩ : ∃ path, Yielded volume start path (chain.after volume sessions) :=
      hstart.exists_after sessions
    rw [hpath.call_eq_none_iff, hstart.over_after_iff (not_over_ofTable volume table start)]

end Chain

end Fat32
