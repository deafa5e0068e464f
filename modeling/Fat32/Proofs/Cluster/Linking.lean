import Fat32.Cluster.Link
import Fat32.Proofs.Performing
import Fat32.Proofs.Specimen
import Fat32.Proofs.Volume.Geometry

/-!
# Linking to clusters

An entry of the table has 28 bits for the cluster that comes next, of which the greatest values
mark bad clusters and the ends of chains. A table may have more entries than that, and its
last clusters then have numbers that no entry can hold.
-/

namespace Fat32

namespace Link

/-- The entry that holds the low bits of a cluster number below the four reserved bits `high`. -/
def toRaw (high cluster : UInt32) : UInt32 := (high <<< 28) ||| (cluster &&& mask)

/-- The values of 28 bits that stand for a link. -/
def MeantBy (value : Nat) : Link → Prop
  | .free => value = 0
  | .reserved => value = 1
  | .next cluster => value = cluster.toNat ∧ 2 ≤ value ∧ value < 0x0FFFFFF7
  | .bad => value = 0x0FFFFFF7
  | .endOfChain => 0x0FFFFFF8 ≤ value

variable {raw cluster : UInt32} {link : Link}

theorem toNat_and_mask (raw : UInt32) : (raw &&& mask).toNat = raw.toNat % 2 ^ 28 := by
  rw [UInt32.toNat_and]
  exact Nat.and_two_pow_sub_one_eq_mod raw.toNat 28

theorem toRaw_and_mask (high cluster : UInt32) :
    toRaw high cluster &&& mask = cluster &&& mask := by
  have hhigh : (high <<< 28).toNat % 2 ^ 28 = 0 := by
    rw [UInt32.toNat_shiftLeft, Nat.mod_mod_of_dvd _ (by decide)]
    exact Nat.shiftLeft_eq high.toNat 28 ▸ Nat.mul_mod_left _ _
  apply UInt32.toNat_inj.mp
  rw [toNat_and_mask, toRaw, UInt32.toNat_or, Nat.or_mod_two_pow, hhigh, Nat.zero_or,
    toNat_and_mask, Nat.mod_mod]

theorem MeantBy.unique {value : Nat} {other : Link} (h : MeantBy value link)
    (hother : MeantBy value other) : link = other := by
  cases link <;> cases other <;> simp only [MeantBy] at h hother
  case next.next cluster other => rw [UInt32.toNat_inj.mp (h.1.symm.trans hother.1)]
  all_goals first | rfl | omega

theorem meantBy_ofRaw (raw : UInt32) : MeantBy (raw.toNat % 2 ^ 28) (ofRaw raw) := by
  rw [← toNat_and_mask, ofRaw]
  generalize raw &&& mask = value
  split
  · next h => rw [h]; rfl
  split
  · next h => rw [h]; rfl
  split
  · next h => rw [h]; rfl
  split
  · next h => exact UInt32.le_iff_toNat_le.mp h
  · next hfree hreserved hbad hend =>
      rw [← UInt32.toNat_inj] at hfree hreserved hbad
      rw [ge_iff_le, UInt32.le_iff_toNat_le] at hend
      change ¬ value.toNat = 0 at hfree
      change ¬ value.toNat = 1 at hreserved
      change ¬ value.toNat = 0x0FFFFFF7 at hbad
      change ¬ 0x0FFFFFF8 ≤ value.toNat at hend
      exact ⟨rfl, by omega, by omega⟩

theorem ofRaw_eq_iff : ofRaw raw = link ↔ MeantBy (raw.toNat % 2 ^ 28) link := by
  constructor
  · rintro rfl
    exact meantBy_ofRaw raw
  · exact (meantBy_ofRaw raw).unique

theorem ofRaw_toRaw_iff (high : UInt32) (hcluster : 2 ≤ cluster) :
    ofRaw (toRaw high cluster) = .next cluster ↔ cluster < badValue := by
  rw [ofRaw_eq_iff, ← toNat_and_mask, toRaw_and_mask, toNat_and_mask, UInt32.lt_iff_toNat_lt]
  constructor
  · rintro ⟨hvalue, -, hlt⟩
    rwa [hvalue] at hlt
  · intro hlt
    have hbits : cluster.toNat % 2 ^ 28 = cluster.toNat :=
      Nat.mod_eq_of_lt (Nat.lt_trans hlt (by decide))
    rw [hbits]
    exact ⟨rfl, UInt32.le_iff_toNat_le.mp hcluster, hlt⟩

end Link

/-- Of the data clusters of an accepted volume, entries can hold just those below the mark for bad
ones. So all can be linked to just when there are no others. -/
theorem Volume.linkable_iff {bytes : Bytes} {volume : Volume} (h : parse bytes = .ok volume) :
    (∀ cluster, volume.isDataCluster cluster → ∀ high,
      Link.ofRaw (Link.toRaw high cluster) = .next cluster ↔ cluster < Link.badValue) ∧
    ((∀ cluster, volume.isDataCluster cluster → ∀ high,
        Link.ofRaw (Link.toRaw high cluster) = .next cluster) ↔
      volume.clusterCount.toNat + 1 < Link.badValue.toNat) := by
  have haccepted := accepted_of_parse h
  have hlinkable (cluster : UInt32) (hdata : volume.isDataCluster cluster) (high : UInt32) :
      Link.ofRaw (Link.toRaw high cluster) = .next cluster ↔ cluster < Link.badValue :=
    Link.ofRaw_toRaw_iff high (volume.isDataCluster_iff_le.mp hdata).1
  refine ⟨hlinkable, ?_⟩
  rw [← haccepted.toNat_maxCluster, ← UInt32.lt_iff_toNat_lt]
  constructor
  · intro hall
    refine Decidable.byContradiction fun hlarge => ?_
    -- the last data cluster is one that no entry can hold
    have hlast : volume.isDataCluster volume.maxCluster :=
      volume.isDataCluster_iff_le.mpr
        ⟨UInt32.le_trans (by decide) (UInt32.not_lt.mp hlarge), UInt32.le_refl _⟩
    exact hlarge ((hlinkable _ hlast 0).mp (hall _ hlast 0))
  · intro hmax cluster hdata high
    have hle := (volume.isDataCluster_iff_le.mp hdata).2
    exact (hlinkable cluster hdata high).mpr (UInt32.lt_of_le_of_lt hle hmax)

namespace Specimen

/-- The volume has all the sectors that there can be, and a table with 2 ^ 29 entries. -/
def vastRecord : Bytes := recordWith [(32, [0xFF, 0xFF, 0xFF, 0xFF, 0, 0, 0x40])]

def vast : Volume :=
  { volume with sectorsPerTable := 0x00400000, totalSectors := 0xFFFFFFFF }

theorem parse_vastRecord : Volume.parse vastRecord = .ok vast :=
  eq_ok_of_toOption (by decide +kernel)

end Specimen

namespace Volume

/-- The last cluster that can be linked to, and the one after it. -/
theorem linkable_iff_vast :
    parse Specimen.vastRecord = .ok Specimen.vast ∧
      Specimen.vast.isDataCluster 0x0FFFFFF6 ∧ Specimen.vast.isDataCluster 0x0FFFFFF7 ∧
      (∀ high, Link.ofRaw (Link.toRaw high 0x0FFFFFF6) = .next 0x0FFFFFF6) ∧
      ∀ high, Link.ofRaw (Link.toRaw high 0x0FFFFFF7) ≠ .next 0x0FFFFFF7 := by
  have hparse := Specimen.parse_vastRecord
  have hlinkable := (linkable_iff hparse).1
  have hlast : Specimen.vast.isDataCluster 0x0FFFFFF6 := by decide
  have hbad : Specimen.vast.isDataCluster 0x0FFFFFF7 := by decide
  refine ⟨hparse, hlast, hbad, fun high => ?_, fun high hnext => ?_⟩
  · exact (hlinkable _ hlast high).mpr (by decide)
  · exact absurd ((hlinkable _ hbad high).mp hnext) (by decide)

theorem not_forall_linkable :
    ¬ ∀ (bytes : Bytes) (volume : Volume), parse bytes = .ok volume →
      ∀ cluster, volume.isDataCluster cluster → ∀ high,
        Link.ofRaw (Link.toRaw high cluster) = .next cluster := by
  intro h
  exact absurd (h _ _ Specimen.parse_vastRecord 0x0FFFFFF7 (by decide) 0) (by decide)

end Volume

end Fat32
