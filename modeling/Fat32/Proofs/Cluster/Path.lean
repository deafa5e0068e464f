import Fat32.Cluster.Chain
import Mathlib.Data.List.Chain
import Mathlib.Data.List.Nodup
import Mathlib.Data.List.Perm.Subperm

/-!
# Paths through a table

The clusters that the links of a table lead to from a start. Such a path either ends as a chain
should, and then it is the only one that does, or it comes to a cluster with a flaw; there is no
third case, because a volume has only so many data clusters.
-/

namespace Fat32

namespace Volume

theorem toNat_of_isDataCluster {volume : Volume} {cluster : UInt32}
    (h : volume.isDataCluster cluster) :
    2 ≤ cluster.toNat ∧ cluster.toNat ≤ volume.clusterCount.toNat + 1 := by
  simp only [isDataCluster, maxCluster, Bool.and_eq_true, decide_eq_true_eq,
    UInt32.le_iff_toNat_le, UInt32.toNat_add] at h
  obtain ⟨hlow, hhigh⟩ := h
  exact ⟨hlow, hhigh.trans (Nat.mod_le _ _)⟩

theorem length_le_clusterCount {volume : Volume} {clusters : List UInt32}
    (hdata : ∀ cluster ∈ clusters, volume.isDataCluster cluster) (hnodup : clusters.Nodup) :
    clusters.length ≤ volume.clusterCount.toNat := by
  have hnumbers : (clusters.map UInt32.toNat).Nodup :=
    hnodup.map fun _ _ h => UInt32.toNat_inj.mp h
  have hsubset : clusters.map UInt32.toNat ⊆ List.range' 2 volume.clusterCount.toNat := by
    intro n hn
    obtain ⟨cluster, hcluster, rfl⟩ := List.mem_map.mp hn
    obtain ⟨hlow, hhigh⟩ := toNat_of_isDataCluster (hdata cluster hcluster)
    rw [List.mem_range'_1]
    omega
  simpa using (List.subperm_of_subset hnumbers hsubset).length_le

end Volume

namespace Chain

variable {volume : Volume} {link : UInt32 → Except Error Link} {start : UInt32}

/-- The path goes from `start` through data clusters, from each to the one that it links to. -/
structure Leads (volume : Volume) (link : UInt32 → Except Error Link) (start : UInt32)
    (path : List UInt32) : Prop where
  head : path.head? = some start
  data : ∀ cluster ∈ path, volume.isDataCluster cluster
  linked : path.IsChain fun a b => link a = .ok (.next b)

/-- The clusters of a sound chain: none comes twice, and the last one ends the chain. -/
structure Resolves (volume : Volume) (link : UInt32 → Except Error Link) (start : UInt32)
    (clusters : List UInt32) : Prop extends Leads volume link start clusters where
  nodup : clusters.Nodup
  last : clusters.getLast?.map link = some (.ok .endOfChain)

/-- What is wrong with a cluster to which the path before it leads. -/
inductive Flaw (volume : Volume) (link : UInt32 → Except Error Link) (start : UInt32)
    (path : List UInt32) (cluster : UInt32) : Error → Prop
  | repeated : cluster ∈ path → Flaw volume link start path cluster (.corruptChain start cluster)
  | unreadable {error : Error} : link cluster = .error error →
      Flaw volume link start path cluster error
  | free : link cluster = .ok .free →
      Flaw volume link start path cluster (.freeCluster start cluster)
  | reserved : link cluster = .ok .reserved →
      Flaw volume link start path cluster (.corruptChain start cluster)
  | bad : link cluster = .ok .bad →
      Flaw volume link start path cluster (.corruptChain start cluster)
  | outside {next : UInt32} : link cluster = .ok (.next next) → ¬ volume.isDataCluster next →
      Flaw volume link start path cluster (.corruptChain start cluster)

/-- The clusters of the path from `start` before the first one with a flaw, and its error. A
start that is no data cluster has none before it. -/
inductive Breaks (volume : Volume) (link : UInt32 → Except Error Link) (start : UInt32) :
    List UInt32 → Error → Prop
  | invalid : ¬ volume.isDataCluster start →
      Breaks volume link start [] (.invalidCluster start)
  | flawed {path : List UInt32} {cluster : UInt32} {error : Error} :
      Leads volume link start (path ++ [cluster]) → path.Nodup →
      Flaw volume link start path cluster error → Breaks volume link start path error

namespace Leads

theorem singleton (h : volume.isDataCluster start) : Leads volume link start [start] :=
  ⟨rfl, by simpa using h, .singleton start⟩

theorem concat {path : List UInt32} {cluster next : UInt32}
    (h : Leads volume link start (path ++ [cluster])) (hlink : link cluster = .ok (.next next))
    (hnext : volume.isDataCluster next) :
    Leads volume link start (path ++ [cluster] ++ [next]) := by
  refine ⟨?_, ?_, ?_⟩
  · rw [List.head?_append_of_ne_nil _ (by simp)]
    exact h.head
  · intro c hc
    rcases List.mem_append.mp hc with hc | hc
    · exact h.data c hc
    · rw [List.mem_singleton.mp hc]
      exact hnext
  · rw [List.append_assoc]
    exact List.isChain_append_cons_cons.mpr ⟨h.linked, hlink, .singleton next⟩

theorem exists_next {path : List UInt32} {cluster last : UInt32}
    (h : Leads volume link start (path ++ [last])) (hcluster : cluster ∈ path) :
    ∃ next, link cluster = .ok (.next next) ∧ volume.isDataCluster next := by
  obtain ⟨before, after, rfl⟩ := List.append_of_mem hcluster
  obtain ⟨next, rest, hnext⟩ : ∃ next rest, after ++ [last] = next :: rest :=
    List.exists_cons_of_ne_nil (by simp)
  rw [List.append_assoc, List.cons_append, hnext] at h
  exact ⟨next, (List.isChain_append_cons_cons.mp h.linked).2.1, h.data next (by simp)⟩

theorem flaw_of_mem {path : List UInt32} {cluster : UInt32} {error : Error}
    (h : Leads volume link start (path ++ [cluster])) (hcluster : cluster ∈ path)
    (hflaw : Flaw volume link start path cluster error) : error = .corruptChain start cluster := by
  obtain ⟨next, hlink, hnext⟩ := h.exists_next hcluster
  cases hflaw with
  | repeated => rfl
  | unreadable hlink' => simp [hlink] at hlink'
  | free hlink' => simp [hlink] at hlink'
  | reserved hlink' => simp [hlink] at hlink'
  | bad hlink' => simp [hlink] at hlink'
  | outside => rfl

theorem length_lt {path : List UInt32} {cluster : UInt32}
    (h : Leads volume link start (path ++ [cluster])) (hnodup : path.Nodup)
    (hnew : cluster ∉ path) : path.length < volume.clusterCount.toNat := by
  have hlength := Volume.length_le_clusterCount h.data (by simpa using hnodup.concat hnew)
  rw [List.length_append, List.length_singleton] at hlength
  exact hlength

/-- A path goes on to its end or to a flaw, for each step takes one of the data clusters that are
left, of which there are no more than `left`. -/
theorem resolves_or_breaks (left : Nat) {path : List UInt32} {cluster : UInt32}
    (hpath : Leads volume link start (path ++ [cluster])) (hnodup : path.Nodup)
    (hleft : volume.clusterCount.toNat ≤ path.length + left) :
    (∃ clusters, path <+: clusters ∧ Resolves volume link start clusters) ∨
      ∃ flawless error, path <+: flawless ∧ Breaks volume link start flawless error := by
  induction left generalizing path cluster with
  | zero =>
      have hrepeated : cluster ∈ path := by
        by_contra hnew
        have := hpath.length_lt hnodup hnew
        omega
      exact .inr ⟨path, _, List.prefix_rfl, .flawed hpath hnodup (.repeated hrepeated)⟩
  | succ left ih =>
      by_cases hrepeated : cluster ∈ path
      · exact .inr ⟨path, _, List.prefix_rfl, .flawed hpath hnodup (.repeated hrepeated)⟩
      have hnodup' : (path ++ [cluster]).Nodup := by simpa using hnodup.concat hrepeated
      have hmore : path <+: path ++ [cluster] := List.prefix_append path [cluster]
      rcases hlink : link cluster with error | entry
      · exact .inr ⟨path, error, List.prefix_rfl, .flawed hpath hnodup (.unreadable hlink)⟩
      cases entry with
      | free => exact .inr ⟨path, _, List.prefix_rfl, .flawed hpath hnodup (.free hlink)⟩
      | reserved => exact .inr ⟨path, _, List.prefix_rfl, .flawed hpath hnodup (.reserved hlink)⟩
      | bad => exact .inr ⟨path, _, List.prefix_rfl, .flawed hpath hnodup (.bad hlink)⟩
      | endOfChain =>
          refine .inl ⟨path ++ [cluster], hmore, hpath, hnodup', ?_⟩
          simp [hlink]
      | next next =>
          by_cases hnext : volume.isDataCluster next
          · have hleft' : volume.clusterCount.toNat ≤ (path ++ [cluster]).length + left := by
              rw [List.length_append, List.length_singleton]
              omega
            rcases ih (hpath.concat hlink hnext) hnodup' hleft' with
              ⟨clusters, hextends, hclusters⟩ | ⟨flawless, error, hextends, hbreaks⟩
            · exact .inl ⟨clusters, hmore.trans hextends, hclusters⟩
            · exact .inr ⟨flawless, error, hmore.trans hextends, hbreaks⟩
          · exact .inr ⟨path, _, List.prefix_rfl, .flawed hpath hnodup (.outside hlink hnext)⟩

end Leads

theorem Breaks.data {path : List UInt32} {error : Error}
    (h : Breaks volume link start path error) : ∀ cluster ∈ path, volume.isDataCluster cluster := by
  cases h with
  | invalid => exact List.forall_mem_nil _
  | flawed hpath => exact fun cluster hcluster => hpath.data cluster (by simp [hcluster])

theorem Breaks.length_le {path : List UInt32} {error : Error}
    (h : Breaks volume link start path error) : path.length ≤ volume.clusterCount.toNat := by
  have hdata := h.data
  cases h with
  | invalid => exact Nat.zero_le _
  | flawed _ hnodup => exact Volume.length_le_clusterCount hdata hnodup

theorem exists_resolves_or_breaks (volume : Volume) (link : UInt32 → Except Error Link)
    (start : UInt32) :
    (∃ clusters, Resolves volume link start clusters) ∨
      ∃ path error, Breaks volume link start path error := by
  by_cases hstart : volume.isDataCluster start
  · have hpath : Leads volume link start ([] ++ [start]) := .singleton hstart
    rcases hpath.resolves_or_breaks volume.clusterCount.toNat .nil (by simp) with
      ⟨clusters, -, hclusters⟩ | ⟨path, error, -, hbreaks⟩
    · exact .inl ⟨clusters, hclusters⟩
    · exact .inr ⟨path, error, hbreaks⟩
  · exact .inr ⟨[], _, .invalid hstart⟩

end Chain

end Fat32
