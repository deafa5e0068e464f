import Fat32.Proofs.Cluster.Path
import Fat32.Proofs.Medium

/-!
# Resolving chains

What a chain yields on an unchanging medium. The kept sector of the table never changes an
answer, so each call moves on by one link of the table: a chain that ends as it should yields
just its clusters, and any other yields the clusters before the flawed one and then its error.
-/

namespace Fat32

def Volume.linkOn (volume : Volume) (device : Device) (cluster : UInt32) : Except Error Link :=
  (volume.sectorsOn device (volume.entrySector cluster) 1 volume.bytesPerSector.toNat).map
    fun bytes => .ofRaw (bytes.u32At (volume.entryOffset cluster))

theorem Volume.linkOn_medium (volume : Volume) (device : Device) :
    volume.linkOn device.medium = volume.linkOn device := by
  funext cluster
  rw [linkOn, linkOn, sectorsOn_medium]

namespace Table

/-- The kept sector, if there is one, holds what the device serves for it. -/
def Faithful (table : Table) (volume : Volume) (device : Device) : Prop :=
  ∀ number bytes, table.kept? number = some bytes →
    volume.sectorsOn device number 1 volume.bytesPerSector.toNat = .ok bytes

theorem faithful_empty (volume : Volume) (device : Device) : empty.Faithful volume device :=
  fun _ _ h => nomatch h

theorem faithful_keep {volume : Volume} {device : Device} {number : UInt32}
    {bytes : Bytes}
    (h : volume.sectorsOn device number 1 volume.bytesPerSector.toNat = .ok bytes) :
    Faithful ⟨some (number, bytes)⟩ volume device := by
  intro number' bytes' hkept
  obtain ⟨rfl, rfl⟩ : number = number' ∧ bytes = bytes' := by simpa [kept?] using hkept
  exact h

theorem gives_sector {table : Table} {volume : Volume} {medium : Device}
    (h : table.Faithful volume medium) (number : UInt32) :
    ∃ after : Table, after.Faithful volume medium ∧
      medium.Gives (table.sector volume number)
        (volume.sectorsOn medium number 1 volume.bytesPerSector.toNat, after) := by
  have hread := volume.gives_readSectors medium number 1 volume.bytesPerSector.toNat
  simp only [sector]
  cases hkept : table.kept? number with
  | some bytes =>
      rw [h number bytes hkept]
      exact ⟨table, h, .pure _⟩
  | none =>
      cases hbytes : volume.sectorsOn medium number 1 volume.bytesPerSector.toNat with
      | error error =>
          rw [hbytes] at hread
          exact ⟨table, h, hread.bind (.pure _)⟩
      | ok bytes =>
          rw [hbytes] at hread
          exact ⟨_, faithful_keep hbytes, hread.bind (.pure _)⟩

theorem gives_link {table : Table} {volume : Volume} {medium : Device} {cluster : UInt32}
    (h : table.Faithful volume medium) (hdata : volume.isDataCluster cluster) :
    ∃ after : Table, after.Faithful volume medium ∧
      medium.Gives (table.link volume cluster) (volume.linkOn medium cluster, after) := by
  obtain ⟨after, hafter, hsector⟩ := gives_sector h (volume.entrySector cluster)
  refine ⟨after, hafter, ?_⟩
  simp only [link, if_pos hdata]
  exact hsector.bind (.pure _)

def links (volume : Volume) :
    List UInt32 → Table → StateM Session (List (Except Error Link) × Table)
  | [], table => return ([], table)
  | cluster :: clusters, table => do
      let (answer, table) ← table.link volume cluster
      let (answers, table) ← links volume clusters table
      return (answer :: answers, table)

theorem gives_links {table : Table} {volume : Volume} {medium : Device}
    (h : table.Faithful volume medium) (clusters : List UInt32) :
    ∃ (answers : List (Except Error Link)) (after : Table), after.Faithful volume medium ∧
      medium.Gives (links volume clusters table) (answers, after) := by
  induction clusters generalizing table with
  | nil => exact ⟨[], table, h, .pure _⟩
  | cons cluster clusters ih =>
      obtain ⟨answer, next, hnext, hlink⟩ : ∃ (answer : Except Error Link) (next : Table),
          next.Faithful volume medium ∧
            medium.Gives (table.link volume cluster) (answer, next) := by
        by_cases hdata : volume.isDataCluster cluster
        · exact ⟨_, gives_link h hdata⟩
        · exact ⟨_, table, h, by rw [link, if_neg hdata]; exact .pure _⟩
      obtain ⟨answers, after, hafter, hlinks⟩ := ih hnext
      exact ⟨answer :: answers, after, hafter, hlink.bind (hlinks.bind (.pure _))⟩

/-- Whatever a new table has answered, it keeps a sector of the medium, which stays the same. -/
theorem faithful_links (volume : Volume) (session : Session) (clusters : List UInt32) :
    let run := (links volume clusters .empty).run session
    run.2.device.medium = session.device.medium ∧
      run.1.2.Faithful volume run.2.device.medium := by
  intro run
  obtain ⟨answers, after, hafter, hlinks⟩ :=
    gives_links (faithful_empty volume session.device.medium) clusters
  obtain ⟨hrun, hmedium⟩ : run.1 = (answers, after) ∧ run.2.device.medium = _ := hlinks session rfl
  rw [hrun, hmedium]
  exact ⟨rfl, hafter⟩

end Table

namespace Chain

/-! ## Yielding -/

/-- Call after call the chain yields the items and then nothing, whatever else is read from the
medium between two calls. -/
inductive Yields (volume : Volume) (medium : Device) : Chain → List (Except Error UInt32) → Prop
  | nil {chain : Chain} : medium.Gives (chain.advance volume) (none, chain) →
      Yields volume medium chain []
  | cons {chain next : Chain} {item : Except Error UInt32} {items : List (Except Error UInt32)} :
      medium.Gives (chain.advance volume) (some item, next) → Yields volume medium next items →
      Yields volume medium chain (item :: items)

def calls (volume : Volume) : (count : Nat) → Chain →
    StateM Session (List (Option (Except Error UInt32)))
  | 0, _ => return []
  | count + 1, chain => do
      let (item, chain) ← chain.advance volume
      return item :: (← calls volume count chain)

variable {volume : Volume} {medium : Device} {start : UInt32}

theorem Yields.gives_calls {chain : Chain} {items : List (Except Error UInt32)}
    (h : Yields volume medium chain items) (count : Nat) :
    medium.Gives (chain.calls volume count) ((List.range count).map (items[·]?)) := by
  induction count generalizing chain items with
  | zero => exact .pure _
  | succ count ih =>
      rw [List.range_succ_eq_map, List.map_cons, List.map_map]
      cases h with
      | nil hend => exact hend.bind ((ih (.nil hend)).bind (.pure _))
      | cons hitem hrest => exact hitem.bind ((ih hrest).bind (.pure _))

theorem Yields.unique {session : Session} {chain : Chain}
    {items others : List (Except Error UInt32)}
    (h : Yields volume session.device.medium chain items)
    (hothers : Yields volume session.device.medium chain others) : items = others := by
  apply List.ext_getElem?
  intro i
  have hcalls := (h.gives_calls (i + 1) session rfl).1.symm.trans
    (hothers.gives_calls (i + 1) session rfl).1
  exact List.map_inj_left.mp hcalls i (List.mem_range.mpr i.lt_succ_self)

theorem Yields.gives_forEach_take {σ : Type} {chain : Chain} {items : List (Except Error UInt32)}
    {visit : Except Error UInt32 → σ → Access (ForInStep σ)}
    {visited : Except Error UInt32 → σ → Except Error (ForInStep σ)}
    (h : Yields volume medium chain items)
    (hvisit : ∀ item state, medium.Gives (visit item state).run (visited item state))
    (limit : Nat) (state : σ) :
    medium.Gives (chain.forEach volume visit limit state).run
      (forIn (items.take limit) state visited) := by
  induction limit generalizing chain items state with
  | zero => exact .access_pure _
  | succ limit ih =>
      cases h with
      | nil hend => exact hend.lift_bind (.access_pure _)
      | @cons _ next item items hitem hrest =>
          rw [List.take_succ_cons, List.forIn_cons]
          refine hitem.lift_bind ((hvisit item state).access_bind fun step _ => ?_)
          cases step with
          | done state => exact .access_pure _
          | yield state => exact ih hrest state

theorem Yields.gives_forEach {σ : Type} {chain : Chain} {items : List (Except Error UInt32)}
    {visit : Except Error UInt32 → σ → Access (ForInStep σ)}
    {visited : Except Error UInt32 → σ → Except Error (ForInStep σ)} {limit : Nat} {state : σ}
    (h : Yields volume medium chain items) (hlimit : items.length ≤ limit)
    (hvisit : ∀ item state, medium.Gives (visit item state).run (visited item state)) :
    medium.Gives (chain.forEach volume visit limit state).run (forIn items state visited) := by
  have hall := h.gives_forEach_take hvisit limit state
  rwa [List.take_of_length_le hlimit] at hall

/-! ## Walking along the links -/

/-- The chain has yielded the clusters of `path`, and `cluster` is due. -/
structure Stands (volume : Volume) (medium : Device) (start : UInt32) (path : List UInt32)
    (cluster : UInt32) (chain : Chain) : Prop where
  start_eq : chain.start = start
  due_eq : chain.due = some cluster
  refused_eq : chain.refused = none
  contains_iff : ∀ c, chain.visited.contains c = true ↔ c ∈ path
  faithful : chain.table.Faithful volume medium

theorem yields_nil {chain : Chain} (hrefused : chain.refused = none) (hdue : chain.due = none) :
    Yields volume medium chain [] := by
  refine .nil ?_
  simp only [advance, hrefused, hdue]
  exact .pure _

theorem yields_refused {chain : Chain} {error : Error} (hrefused : chain.refused = some error)
    (hdue : chain.due = none) : Yields volume medium chain [.error error] := by
  have hadvance : medium.Gives (chain.advance volume)
      (some (.error error), { chain with refused := none }) := by
    simp only [advance, hrefused]
    exact .pure _
  exact .cons hadvance (yields_nil rfl hdue)

theorem Flaw.follow_eq {link : UInt32 → Except Error Link} {path : List UInt32}
    {cluster : UInt32} {error : Error} (h : Flaw volume link start path cluster error)
    (hnew : cluster ∉ path) : (link cluster).bind (follow volume start cluster) = .error error := by
  cases h with
  | repeated hrepeated => exact absurd hrepeated hnew
  | unreadable hlink => rw [hlink]; rfl
  | free hlink => rw [hlink]; rfl
  | reserved hlink => rw [hlink]; rfl
  | bad hlink => rw [hlink]; rfl
  | outside hlink hnext =>
      rw [hlink]
      exact if_neg hnext

namespace Stands

variable {path : List UInt32} {cluster : UInt32} {chain : Chain}

theorem contains_eq_false (h : Stands volume medium start path cluster chain)
    (hnew : cluster ∉ path) : chain.visited.contains cluster = false := by
  rw [Bool.eq_false_iff]
  exact fun hcontains => hnew ((h.contains_iff cluster).mp hcontains)

theorem gives_repeated (h : Stands volume medium start path cluster chain)
    (hrepeated : cluster ∈ path) :
    medium.Gives (chain.advance volume)
      (some (.error (.corruptChain start cluster)), { chain with due := none }) := by
  simp only [advance, h.refused_eq, h.due_eq, (h.contains_iff cluster).mpr hrepeated, h.start_eq]
  exact .pure _

theorem gives_follow (h : Stands volume medium start path cluster chain)
    (hdata : volume.isDataCluster cluster) (hnew : cluster ∉ path) :
    ∃ table : Table, table.Faithful volume medium ∧
      medium.Gives (chain.advance volume)
        (match (volume.linkOn medium cluster).bind (follow volume start cluster) with
        | .error error => (some (.error error),
            { chain with due := none, visited := chain.visited.insert cluster, table })
        | .ok (due, _) => (some (.ok cluster),
            { chain with due, visited := chain.visited.insert cluster, table })) := by
  obtain ⟨table, htable, hlink⟩ := Table.gives_link h.faithful hdata
  refine ⟨table, htable, ?_⟩
  simp only [advance, h.refused_eq, h.due_eq, h.contains_eq_false hnew, h.start_eq]
  refine hlink.bind ?_
  rcases (volume.linkOn medium cluster).bind (follow volume start cluster) with error | ⟨due, event⟩
  · exact .pure _
  · exact (Device.Gives.report _).bind (.pure _)

theorem yields_flaw {error : Error} (h : Stands volume medium start path cluster chain)
    (hpath : Leads volume (volume.linkOn medium) start (path ++ [cluster]))
    (hflaw : Flaw volume (volume.linkOn medium) start path cluster error) :
    Yields volume medium chain [.error error] := by
  by_cases hcluster : cluster ∈ path
  · rw [hpath.flaw_of_mem hcluster hflaw]
    exact .cons (h.gives_repeated hcluster) (yields_nil h.refused_eq rfl)
  · obtain ⟨table, _, hadvance⟩ := h.gives_follow (hpath.data cluster (by simp)) hcluster
    rw [hflaw.follow_eq hcluster] at hadvance
    exact .cons hadvance (yields_nil h.refused_eq rfl)

theorem yields_last (h : Stands volume medium start path cluster chain)
    (hdata : volume.isDataCluster cluster) (hnew : cluster ∉ path)
    (hlast : volume.linkOn medium cluster = .ok .endOfChain) :
    Yields volume medium chain [.ok cluster] := by
  obtain ⟨table, _, hadvance⟩ := h.gives_follow hdata hnew
  rw [hlast] at hadvance
  exact .cons hadvance (yields_nil h.refused_eq rfl)

theorem advance_next {next : UInt32} (h : Stands volume medium start path cluster chain)
    (hdata : volume.isDataCluster cluster) (hnew : cluster ∉ path)
    (hlink : volume.linkOn medium cluster = .ok (.next next))
    (hnext : volume.isDataCluster next) :
    ∃ after : Chain, Stands volume medium start (path ++ [cluster]) next after ∧
      medium.Gives (chain.advance volume) (some (.ok cluster), after) := by
  obtain ⟨table, htable, hadvance⟩ := h.gives_follow hdata hnew
  have hfollow : (volume.linkOn medium cluster).bind (follow volume start cluster) =
      .ok (some next, .chainLink start cluster next) := by
    rw [hlink]
    exact if_pos hnext
  rw [hfollow] at hadvance
  refine ⟨{ chain with due := some next, visited := chain.visited.insert cluster, table },
    ⟨h.start_eq, rfl, h.refused_eq, fun c => ?_, htable⟩, hadvance⟩
  rw [Std.TreeSet.contains_insert, Bool.or_eq_true, beq_iff_eq, Std.compare_eq_iff_eq,
    h.contains_iff, List.mem_append, List.mem_singleton, or_comm, eq_comm (a := c)]

theorem yields_append {more : List UInt32} {last : UInt32} {items : List (Except Error UInt32)}
    (h : Stands volume medium start path cluster chain)
    (hcluster : (more ++ [last]).head? = some cluster)
    (hpath : Leads volume (volume.linkOn medium) start (path ++ (more ++ [last])))
    (hnodup : (path ++ more).Nodup)
    (hitems : ∀ after, Stands volume medium start (path ++ more) last after →
      Yields volume medium after items) :
    Yields volume medium chain (more.map .ok ++ items) := by
  induction more generalizing path cluster chain with
  | nil =>
      obtain rfl : last = cluster := by simpa using hcluster
      rw [List.append_nil] at hitems
      exact hitems chain h
  | cons first more ih =>
      obtain rfl : first = cluster := by simpa using hcluster
      obtain ⟨next, rest, hnext⟩ : ∃ next rest, more ++ [last] = next :: rest :=
        List.exists_cons_of_ne_nil (by simp)
      have hlink : volume.linkOn medium first = .ok (.next next) := by
        have hlinked := hpath.linked
        rw [List.cons_append, hnext] at hlinked
        exact (List.isChain_append_cons_cons.mp hlinked).2.1
      have hnew : first ∉ path := by
        rw [List.nodup_append] at hnodup
        exact fun hmem => hnodup.2.2 first hmem first (by simp) rfl
      obtain ⟨after, hafter, hadvance⟩ := h.advance_next (hpath.data first (by simp)) hnew hlink
        (hpath.data next (by simp [hnext]))
      have hassoc (tail : List UInt32) : path ++ [first] ++ tail = path ++ first :: tail := by
        simp
      refine .cons hadvance (ih hafter (by simp [hnext]) ?_ ?_ ?_)
      · rwa [hassoc]
      · rwa [hassoc]
      · rwa [hassoc]

end Stands

/-! ## All that a chain yields -/

section

variable {table : Table} (htable : table.Faithful volume medium)
include htable

theorem stands_ofTable (hstart : volume.isDataCluster start) :
    Stands volume medium start [] start (ofTable volume table start) := by
  rw [ofTable, if_pos hstart]
  exact ⟨rfl, rfl, rfl, by simp, htable⟩

theorem Resolves.yields_ofTable {clusters : List UInt32}
    (h : Resolves volume (volume.linkOn medium) start clusters) :
    Yields volume medium (ofTable volume table start) (clusters.map .ok) := by
  obtain ⟨more, last, rfl⟩ : ∃ more last, clusters = more ++ [last] := by
    rcases clusters.eq_nil_or_concat with rfl | ⟨more, last, rfl⟩
    · simpa using h.last
    · exact ⟨more, last, by simp⟩
  have hstands := stands_ofTable htable (h.data start (List.mem_of_head? h.head))
  have hnodup := List.nodup_append.mp h.nodup
  rw [List.map_append]
  refine hstands.yields_append h.head h.toLeads (by simpa using hnodup.1) fun after hafter => ?_
  exact hafter.yields_last (h.data last (by simp))
    (fun hmem => hnodup.2.2 last (by simpa using hmem) last (by simp) rfl)
    (by simpa using h.last)

theorem Breaks.yields_ofTable {path : List UInt32} {error : Error}
    (h : Breaks volume (volume.linkOn medium) start path error) :
    Yields volume medium (ofTable volume table start) (path.map .ok ++ [.error error]) := by
  cases h with
  | invalid hstart =>
      rw [ofTable, if_neg hstart]
      exact yields_refused rfl rfl
  | flawed hpath hnodup hflaw =>
      have hstands := stands_ofTable htable (hpath.data start (List.mem_of_head? hpath.head))
      exact hstands.yields_append hpath.head hpath (by simpa using hnodup) fun after hafter =>
        hafter.yields_flaw (by simpa using hpath) (by simpa using hflaw)

end

theorem Resolves.yields {clusters : List UInt32}
    (h : Resolves volume (volume.linkOn medium) start clusters) :
    Yields volume medium (ofStart volume start) (clusters.map .ok) :=
  h.yields_ofTable (Table.faithful_empty volume medium)

theorem Breaks.yields {path : List UInt32} {error : Error}
    (h : Breaks volume (volume.linkOn medium) start path error) :
    Yields volume medium (ofStart volume start) (path.map .ok ++ [.error error]) :=
  h.yields_ofTable (Table.faithful_empty volume medium)

theorem Yields.resolves_or_breaks {session : Session} {items : List (Except Error UInt32)}
    (h : Yields volume session.device.medium (ofStart volume start) items) :
    (∃ clusters, Resolves volume (volume.linkOn session.device.medium) start clusters ∧
      items = clusters.map .ok) ∨
    ∃ path error, Breaks volume (volume.linkOn session.device.medium) start path error ∧
      items = path.map .ok ++ [.error error] := by
  rcases exists_resolves_or_breaks volume (volume.linkOn session.device.medium) start with
    ⟨clusters, hclusters⟩ | ⟨path, error, hpath⟩
  · exact .inl ⟨clusters, hclusters, h.unique hclusters.yields⟩
  · exact .inr ⟨path, error, hpath, h.unique hpath.yields⟩

theorem Yields.ne_nil {session : Session} {items : List (Except Error UInt32)}
    (h : Yields volume session.device.medium (ofStart volume start) items) : items ≠ [] := by
  rcases h.resolves_or_breaks with ⟨clusters, hclusters, rfl⟩ | ⟨path, error, -, rfl⟩
  · rw [ne_eq, List.map_eq_nil_iff]
    exact List.ne_nil_of_mem (List.mem_of_head? hclusters.head)
  · exact List.concat_ne_nil _ _

theorem Yields.mem_cases {session : Session} {items : List (Except Error UInt32)}
    {item : Except Error UInt32}
    (h : Yields volume session.device.medium (ofStart volume start) items) (hitem : item ∈ items) :
    (∃ cluster, item = .ok cluster ∧ volume.isDataCluster cluster) ∨
      ∃ path error, item = .error error ∧
        Breaks volume (volume.linkOn session.device.medium) start path error := by
  have hclusters {path : List UInt32} (hdata : ∀ cluster ∈ path, volume.isDataCluster cluster)
      (hmem : item ∈ path.map .ok) :
      ∃ cluster, item = .ok cluster ∧ volume.isDataCluster cluster := by
    obtain ⟨cluster, hcluster, rfl⟩ := List.mem_map.mp hmem
    exact ⟨cluster, rfl, hdata cluster hcluster⟩
  rcases h.resolves_or_breaks with ⟨clusters, hresolves, rfl⟩ | ⟨path, error, hbreaks, rfl⟩
  · exact .inl (hclusters hresolves.data hitem)
  · rcases List.mem_append.mp hitem with hitem | hitem
    · exact .inl (hclusters hbreaks.data hitem)
    · exact .inr ⟨path, error, List.mem_singleton.mp hitem, hbreaks⟩

theorem exists_yields (volume : Volume) (medium : Device) (start : UInt32) :
    ∃ (path : List UInt32) (tail : List (Except Error UInt32)),
      Yields volume medium (ofStart volume start) (path.map .ok ++ tail) ∧
      path.length ≤ volume.clusterCount.toNat ∧ (tail = [] ∨ ∃ error, tail = [.error error]) := by
  rcases exists_resolves_or_breaks volume (volume.linkOn medium) start with
    ⟨clusters, hclusters⟩ | ⟨path, error, hpath⟩
  · have hlength := Volume.length_le_clusterCount hclusters.data hclusters.nodup
    refine ⟨clusters, [], ?_, hlength, .inl rfl⟩
    rw [List.append_nil]
    exact hclusters.yields
  · exact ⟨path, _, hpath.yields, hpath.length_le, .inr ⟨error, rfl⟩⟩

theorem Yields.perform_clusterChain {table : Table} {session : Session}
    {items : List (Except Error UInt32)}
    (h : Yields volume session.device.medium (ofTable volume table start) items)
    (hlength : items.length ≤ volume.chainBound) :
    ((table.clusterChain volume start).perform session).1 = items.mapM fun item => item := by
  have hvisit (item : Except Error UInt32) (collected : Array UInt32) :
      session.device.medium.Gives
        (do return .yield (collected.push (← item)) : Access (ForInStep (Array UInt32))).run
        (do return .yield (collected.push (← item))) := by
    cases item with
    | error error => exact .throw error
    | ok cluster => exact .access_pure _
  have hcollect : (do
      let collected ← forIn items #[] fun item collected => do
        return .yield (collected.push (← item))
      return collected.toList) = items.mapM fun item => item := by
    simp
  rw [← hcollect]
  exact ((h.gives_forEach hlength hvisit).access_bind fun _ _ => .access_pure _).perform

private theorem mapM_ok (clusters : List UInt32) (tail : List (Except Error UInt32)) :
    (clusters.map Except.ok ++ tail).mapM (fun item => item) =
      (clusters ++ ·) <$> tail.mapM fun item => item := by
  induction clusters with
  | nil => simp
  | cons cluster clusters ih =>
      rw [List.map_cons, List.cons_append, List.mapM_cons, ih]
      cases tail.mapM fun item => item <;> rfl

section

variable {table : Table} {session : Session}
  (htable : table.Faithful volume session.device.medium)

include htable

theorem Resolves.perform_clusterChain {clusters : List UInt32}
    (h : Resolves volume (volume.linkOn session.device.medium) start clusters) :
    ((table.clusterChain volume start).perform session).1 = .ok clusters := by
  have hlength := Volume.length_le_clusterCount h.data h.nodup
  have hcollect := mapM_ok clusters []
  rw [List.append_nil] at hcollect
  rw [(h.yields_ofTable htable).perform_clusterChain
    (by simpa [Volume.chainBound] using hlength.step), hcollect]
  exact congrArg Except.ok clusters.append_nil

variable {path : List UInt32} {error : Error}

theorem Breaks.perform_clusterChain
    (h : Breaks volume (volume.linkOn session.device.medium) start path error) :
    ((table.clusterChain volume start).perform session).1 = .error error := by
  rw [(h.yields_ofTable htable).perform_clusterChain
    (by simpa [Volume.chainBound] using h.length_le), mapM_ok]
  rfl

theorem Breaks.run_calls (h : Breaks volume (volume.linkOn session.device.medium) start path error)
    (count : Nat) : (((ofTable volume table start).calls volume count).run session).1 =
      (List.range count).map ((path.map .ok ++ [.error error])[·]?) :=
  ((h.yields_ofTable htable).gives_calls count session rfl).1

end

/-- Following a chain gives its clusters just when they make up a sound chain. Every other chain
yields, call after call, the clusters before the flawed one, its error, and then nothing. All this
holds too of a table that has answered about other clusters before. -/
theorem clusterChain_exact (volume : Volume) (session : Session) (asked : List UInt32)
    (start : UInt32) :
    let run := (Table.links volume asked .empty).run session
    let table := run.1.2
    (∀ clusters, ((table.clusterChain volume start).perform run.2).1 = .ok clusters ↔
      Resolves volume (volume.linkOn session.device) start clusters) ∧
    ((∃ clusters, Resolves volume (volume.linkOn session.device) start clusters) ∨
      ∃ path error, Breaks volume (volume.linkOn session.device) start path error ∧
        ((table.clusterChain volume start).perform run.2).1 = .error error ∧
        ∀ count, (((ofTable volume table start).calls volume count).run run.2).1 =
          (List.range count).map ((path.map .ok ++ [.error error])[·]?)) := by
  intro run table
  obtain ⟨hmedium, htable⟩ := Table.faithful_links volume session asked
  have hlink : volume.linkOn session.device = volume.linkOn run.2.device.medium := by
    rw [hmedium, volume.linkOn_medium]
  rw [hlink]
  rcases exists_resolves_or_breaks volume (volume.linkOn run.2.device.medium) start with
    ⟨chain, hchain⟩ | ⟨path, error, hpath⟩
  · refine ⟨fun clusters => ⟨fun h => ?_, (·.perform_clusterChain htable)⟩, .inl ⟨chain, hchain⟩⟩
    rw [hchain.perform_clusterChain htable] at h
    obtain rfl := Except.ok.inj h
    exact hchain
  · have hfails := hpath.perform_clusterChain htable
    refine ⟨fun clusters => ⟨fun h => ?_, (·.perform_clusterChain htable)⟩,
      .inr ⟨path, error, hpath, hfails, hpath.run_calls htable⟩⟩
    rw [hfails] at h
    contradiction

end Chain

end Fat32
