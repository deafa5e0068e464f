import Fat32.Proofs.Cluster.Resolution

/-!
# Beginnings of chains

The first clusters that a chain yields hang on the links of these clusters alone. Whatever the
table says about all others, the chain begins with the same clusters and may only go on in
another way.
-/

namespace Fat32.Chain

variable {volume : Volume} {medium : Device} {link : UInt32 → Except Error Link} {start : UInt32}

/-- A path without a flawed cluster: each one links to a data cluster, or ends the chain. -/
structure Begins (volume : Volume) (link : UInt32 → Except Error Link) (start : UInt32)
    (path : List UInt32) : Prop extends Leads volume link start path where
  nodup : path.Nodup
  flawless : ∀ cluster ∈ path, link cluster = .ok .endOfChain ∨
    ∃ next, link cluster = .ok (.next next) ∧ volume.isDataCluster next

theorem Leads.beginning {path beginning : List UInt32} (h : Leads volume link start path)
    (hextends : beginning <+: path) (hne : beginning ≠ []) : Leads volume link start beginning := by
  refine ⟨?_, fun cluster hcluster => h.data cluster (hextends.subset hcluster),
    h.linked.prefix hextends⟩
  obtain ⟨rest, rfl⟩ := hextends
  rw [← h.head, List.head?_append_of_ne_nil beginning hne]

theorem Resolves.begins {clusters beginning : List UInt32}
    (h : Resolves volume link start clusters) (hextends : beginning <+: clusters)
    (hne : beginning ≠ []) : Begins volume link start beginning := by
  refine ⟨h.toLeads.beginning hextends hne, h.nodup.sublist hextends.sublist,
    fun cluster hmem => ?_⟩
  obtain ⟨more, last, rfl⟩ := (List.eq_nil_or_concat' clusters).resolve_left
    fun hnil => hne (List.prefix_nil.mp (hnil ▸ hextends))
  rcases List.mem_append.mp (hextends.subset hmem) with hmem | hmem
  · exact .inr (h.toLeads.exists_next hmem)
  · obtain rfl := List.mem_singleton.mp hmem
    exact .inl (by simpa using h.last)

theorem Breaks.begins {path beginning : List UInt32} {error : Error}
    (h : Breaks volume link start path error) (hextends : beginning <+: path)
    (hne : beginning ≠ []) : Begins volume link start beginning := by
  cases h with
  | invalid => exact absurd (List.prefix_nil.mp hextends) hne
  | flawed hpath hnodup =>
      exact ⟨hpath.beginning (hextends.trans (List.prefix_append _ _)) hne,
        hnodup.sublist hextends.sublist,
        fun cluster hmem => .inr (hpath.exists_next (hextends.subset hmem))⟩

theorem Begins.congr {path : List UInt32} {other : UInt32 → Except Error Link}
    (h : Begins volume link start path) (hlink : ∀ cluster ∈ path, other cluster = link cluster) :
    Begins volume other start path := by
  refine ⟨⟨h.head, h.data, ?_⟩, h.nodup, fun cluster hcluster => ?_⟩
  · exact h.linked.imp_of_mem_imp fun a b ha _ hab => (hlink a ha).trans hab
  · rw [hlink cluster hcluster]
    exact h.flawless cluster hcluster

theorem Begins.resolves_or_breaks {path : List UInt32} (h : Begins volume link start path) :
    (∃ clusters, path <+: clusters ∧ Resolves volume link start clusters) ∨
      ∃ flawless error, path <+: flawless ∧ Breaks volume link start flawless error := by
  obtain ⟨more, last, rfl⟩ := (List.eq_nil_or_concat' path).resolve_left
    fun hnil => absurd h.head (by simp [hnil])
  -- a path that does not end with its last cluster goes on from there
  rcases h.flawless last (by simp) with hlast | ⟨next, hlink, hnext⟩
  · exact .inl ⟨_, List.prefix_rfl, h.toLeads, h.nodup, by simp [hlast]⟩
  · exact (h.toLeads.concat hlink hnext).resolves_or_breaks volume.clusterCount.toNat h.nodup
      (Nat.le_add_left _ _)

/-! ## What a chain yields first -/

theorem Resolves.length_le {clusters : List UInt32} (h : Resolves volume link start clusters) :
    clusters.length ≤ volume.chainBound :=
  Nat.le_succ_of_le (Volume.length_le_clusterCount h.data h.nodup)

theorem Begins.exists_yields {path : List UInt32}
    (h : Begins volume (volume.linkOn medium) start path) :
    ∃ rest, Yields volume medium (ofStart volume start) (path.map .ok ++ rest) ∧
      (path.map .ok ++ rest).length ≤ volume.chainBound := by
  rcases h.resolves_or_breaks with ⟨_, ⟨more, rfl⟩, hresolves⟩ | ⟨_, error, ⟨more, rfl⟩, hbreaks⟩
  · refine ⟨more.map .ok, ?_, ?_⟩
    · rw [← List.map_append]
      exact hresolves.yields
    · simpa using hresolves.length_le
  · refine ⟨more.map .ok ++ [.error error], ?_, ?_⟩
    · rw [← List.append_assoc, ← List.map_append]
      exact hbreaks.yields
    · simpa [Volume.chainBound, ← Nat.add_assoc] using hbreaks.length_le

theorem exists_yields_begins (volume : Volume) (medium : Device) (start : UInt32) :
    ∃ items, Yields volume medium (ofStart volume start) items ∧
      items.length ≤ volume.chainBound ∧
      ∀ path, path ≠ [] → path.map .ok <+: items →
        Begins volume (volume.linkOn medium) start path := by
  have hinjective : Function.Injective (Except.ok (α := UInt32) (ε := Error)) :=
    fun _ _ => Except.ok.inj
  rcases exists_resolves_or_breaks volume (volume.linkOn medium) start with
    ⟨clusters, hresolves⟩ | ⟨flawless, error, hbreaks⟩
  · refine ⟨_, hresolves.yields, by simpa using hresolves.length_le, fun path hne hextends => ?_⟩
    exact hresolves.begins ((List.prefix_map_iff_of_injective hinjective).mp hextends) hne
  · refine ⟨_, hbreaks.yields, by simpa [Volume.chainBound] using hbreaks.length_le,
      fun path hne hextends => ?_⟩
    rcases List.prefix_concat_iff.mp hextends with heq | hextends
    · have herror : Except.error error ∈ path.map Except.ok := by simp [heq]
      simp at herror
    · exact hbreaks.begins ((List.prefix_map_iff_of_injective hinjective).mp hextends) hne

end Fat32.Chain
