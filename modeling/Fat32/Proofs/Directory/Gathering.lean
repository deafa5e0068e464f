import Fat32.Directory.LongName
import Mathlib.Data.List.Nodup
import Mathlib.Data.List.Perm.Subperm
import Mathlib.Data.List.Range

/-!
# Gathering fragments

The fragments of a long name arrive one after the other. A name gathered from them is just their
arrangement by sequence number, and it exists just when the first one opens a name and the others
carry its checksum and take places that are free. It is complete when the numbers are those from
one up to that of the first fragment, in any order.
-/

namespace Fat32

namespace PartialName

def arrange (count : Nat) (fragments : List Fragment) : List (Option Units) :=
  (List.range' 1 count).map fun place =>
    (fragments.find? fun f => f.sequence = place).map Fragment.units

def gather (first : Fragment) (rest : List Fragment) : Option PartialName :=
  (open? first).bind fun name => rest.foldlM place? name

@[simp] theorem length_arrange (count : Nat) (fragments : List Fragment) :
    (arrange count fragments).length = count := by
  simp [arrange]

theorem arrange_getElem? {count place : Nat} (fragments : List Fragment) (hplace : place < count) :
    (arrange count fragments)[place]? =
      some ((fragments.find? fun f => f.sequence = place + 1).map Fragment.units) := by
  simp [arrange, hplace, Nat.add_comm]

theorem gather_concat (first : Fragment) (rest : List Fragment) (f : Fragment) :
    gather first (rest ++ [f]) = (gather first rest).bind (·.place? f) := by
  cases h : open? first with
  | none => simp [gather, h]
  | some name =>
      simp only [gather, h, Option.bind_some, List.foldlM_append, List.foldlM_cons, List.foldlM_nil]
      cases rest.foldlM place? name with
      | none => rfl
      | some name => simp

theorem set_arrange {count : Nat} {fragments : List Fragment} {f : Fragment}
    (hlow : f.sequence ≠ 0) (hfree : ∀ g ∈ fragments, g.sequence ≠ f.sequence) :
    (arrange count fragments).set (f.sequence - 1) (some f.units) =
      arrange count (fragments ++ [f]) := by
  apply List.ext_getElem?
  intro i
  by_cases hi : i < count
  · rw [arrange_getElem? _ hi, List.getElem?_set, length_arrange, arrange_getElem? _ hi,
      List.find?_append]
    by_cases hplace : f.sequence - 1 = i
    · have hnone : fragments.find? (fun g => g.sequence = f.sequence) = none := by
        rw [List.find?_eq_none]
        simpa using hfree
      obtain rfl : i = f.sequence - 1 := hplace.symm
      rw [Nat.sub_add_cancel (by omega)]
      simp [hi, hnone]
    · have hsequence : f.sequence ≠ i + 1 := by omega
      simp [hplace, hsequence]
  · rw [List.getElem?_eq_none (by simpa using hi), List.getElem?_eq_none (by simpa using hi)]

theorem getElem?_arrange_eq_none {count : Nat} {fragments : List Fragment} {f : Fragment}
    (hlow : 1 ≤ f.sequence) : (arrange count fragments)[f.sequence - 1]? = some none ↔
      f.sequence ≤ count ∧ ∀ g ∈ fragments, g.sequence ≠ f.sequence := by
  by_cases hhigh : f.sequence ≤ count
  · rw [arrange_getElem? _ (by omega), Nat.sub_add_cancel hlow]
    simp [hhigh]
  · rw [List.getElem?_eq_none (by rw [length_arrange]; omega)]
    simp [hhigh]

theorem place?_arrange {checksum : UInt8} {count : Nat} {fragments : List Fragment}
    {f : Fragment} {name : PartialName} :
    (mk checksum (arrange count fragments)).place? f = some name ↔
      f.checksum = checksum ∧ (1 ≤ f.sequence ∧ f.sequence ≤ count) ∧
        (∀ g ∈ fragments, g.sequence ≠ f.sequence) ∧
        name = ⟨checksum, arrange count (fragments ++ [f])⟩ := by
  by_cases hlow : 1 ≤ f.sequence
  · have hnonzero : f.sequence ≠ 0 := by omega
    simp only [place?, getElem?_arrange_eq_none hlow]
    constructor
    · intro h
      split at h <;> rename_i hplace
      · obtain ⟨hchecksum, -, hhigh, hfree⟩ := hplace
        simp only [Option.some.injEq, set_arrange hnonzero hfree] at h
        exact ⟨hchecksum.symm, ⟨hlow, hhigh⟩, hfree, h.symm⟩
      · contradiction
    · rintro ⟨rfl, ⟨-, hhigh⟩, hfree, rfl⟩
      rw [if_pos ⟨rfl, hnonzero, hhigh, hfree⟩, set_arrange hnonzero hfree]
  · have hzero : f.sequence = 0 := by omega
    simp [place?, hzero]

theorem open?_eq_some_iff {f : Fragment} {name : PartialName} :
    open? f = some name ↔ (1 ≤ f.sequence ∧ f.sequence ≤ maxFragments) ∧
      name = ⟨f.checksum, arrange f.sequence [f]⟩ := by
  by_cases hrange : 1 ≤ f.sequence ∧ f.sequence ≤ maxFragments
  · have hnonzero : f.sequence ≠ 0 := by omega
    have hempty : List.replicate f.sequence none = arrange f.sequence [] := by
      simp [arrange, List.map_const']
    rw [open?, if_neg (by omega), hempty, set_arrange hnonzero (by simp)]
    simp [hrange, eq_comm]
  · rw [open?, if_pos (by omega)]
    simp [hrange]

/-- The others carry the checksum of the first and have numbers of their own below its. -/
structure Fits (first : Fragment) (rest : List Fragment) : Prop where
  opens : 1 ≤ first.sequence ∧ first.sequence ≤ maxFragments
  checksum_eq : ∀ f ∈ rest, f.checksum = first.checksum
  bounds : ∀ f ∈ rest, 1 ≤ f.sequence ∧ f.sequence ≤ first.sequence
  nodup : ((first :: rest).map Fragment.sequence).Nodup

theorem fits_concat {first f : Fragment} {rest : List Fragment} :
    Fits first (rest ++ [f]) ↔ Fits first rest ∧ f.checksum = first.checksum ∧
      (1 ≤ f.sequence ∧ f.sequence ≤ first.sequence) ∧
      ∀ g ∈ first :: rest, g.sequence ≠ f.sequence := by
  have hnodup : ((first :: (rest ++ [f])).map Fragment.sequence).Nodup ↔
      ((first :: rest).map Fragment.sequence).Nodup ∧
        ∀ g ∈ first :: rest, g.sequence ≠ f.sequence := by
    rw [← List.cons_append, List.map_append, List.nodup_append]
    simp
  constructor
  · intro h
    obtain ⟨hrest, hfree⟩ := hnodup.mp h.nodup
    exact ⟨⟨h.opens, fun g hg => h.checksum_eq g (by simp [hg]),
      fun g hg => h.bounds g (by simp [hg]), hrest⟩,
      h.checksum_eq f (by simp), h.bounds f (by simp), hfree⟩
  · rintro ⟨h, hchecksum, hbounds, hfree⟩
    refine ⟨h.opens, fun g hg => ?_, fun g hg => ?_, hnodup.mpr ⟨h.nodup, hfree⟩⟩
    · rcases List.mem_append.mp hg with hg | hg
      · exact h.checksum_eq g hg
      · rwa [List.mem_singleton.mp hg]
    · rcases List.mem_append.mp hg with hg | hg
      · exact h.bounds g hg
      · rwa [List.mem_singleton.mp hg]

theorem gather_eq_some_iff {first : Fragment} {rest : List Fragment} {name : PartialName} :
    gather first rest = some name ↔
      Fits first rest ∧ name = ⟨first.checksum, arrange first.sequence (first :: rest)⟩ := by
  induction rest using List.reverseRecOn generalizing name with
  | nil =>
      have hfits : Fits first [] ↔ 1 ≤ first.sequence ∧ first.sequence ≤ maxFragments :=
        ⟨fun h => h.opens, fun h => ⟨h, by simp, by simp, by simp⟩⟩
      simpa [gather, hfits] using open?_eq_some_iff
  | append_singleton rest f ih =>
      rw [gather_concat, Option.bind_eq_some_iff, fits_concat]
      constructor
      · rintro ⟨waiting, hwaiting, hplace⟩
        obtain ⟨hfits, rfl⟩ := ih.mp hwaiting
        obtain ⟨hchecksum, hbounds, hfree, hname⟩ := place?_arrange.mp hplace
        exact ⟨⟨hfits, hchecksum, hbounds, hfree⟩, hname⟩
      · rintro ⟨⟨hfits, hchecksum, hbounds, hfree⟩, hname⟩
        exact ⟨_, ih.mpr ⟨hfits, rfl⟩, place?_arrange.mpr ⟨hchecksum, hbounds, hfree, hname⟩⟩

theorem isComplete_arrange {checksum : UInt8} {count : Nat} {fragments : List Fragment} :
    (mk checksum (arrange count fragments)).isComplete = true ↔
      ∀ place ∈ List.range' 1 count, place ∈ fragments.map Fragment.sequence := by
  simp [isComplete, arrange]

theorem Fits.isComplete_iff {first : Fragment} {rest : List Fragment} (h : Fits first rest) :
    (PartialName.mk first.checksum (arrange first.sequence (first :: rest))).isComplete = true ↔
      first.sequence = rest.length + 1 ∧
        (rest.map Fragment.sequence).Perm (List.range' 1 rest.length) := by
  have hrange (n : Nat) : (List.range' 1 (n + 1)).Perm ((n + 1) :: List.range' 1 n) := by
    rw [List.range'_concat, Nat.one_mul, Nat.add_comm 1 n]
    exact List.perm_append_singleton _ _
  rw [isComplete_arrange]
  constructor
  · intro hall
    have hperm : ((first :: rest).map Fragment.sequence).Perm (List.range' 1 first.sequence) := by
      rw [List.perm_ext_iff_of_nodup h.nodup List.nodup_range']
      refine fun place => ⟨fun hplace => ?_, hall place⟩
      rw [List.mem_range'_1]
      rcases List.mem_cons.mp hplace with rfl | hplace
      · have := h.opens
        omega
      · obtain ⟨f, hf, rfl⟩ := List.mem_map.mp hplace
        have := h.bounds f hf
        omega
    have hlength : first.sequence = rest.length + 1 := by simpa using hperm.length_eq.symm
    rw [hlength, List.map_cons, hlength] at hperm
    exact ⟨hlength, (hperm.trans (hrange rest.length)).cons_inv⟩
  · rintro ⟨hlength, hperm⟩ place hplace
    rw [hlength, (hrange rest.length).mem_iff, List.mem_cons] at hplace
    rw [List.map_cons, List.mem_cons, hlength, hperm.mem_iff]
    exact hplace

theorem fits_of_perm {first : Fragment} {rest : List Fragment}
    (hfirst : first.sequence = rest.length + 1) (hlength : rest.length < maxFragments)
    (hchecksum : ∀ f ∈ rest, f.checksum = first.checksum)
    (hperm : (rest.map Fragment.sequence).Perm (List.range' 1 rest.length)) :
    Fits first rest := by
  have hbounds : ∀ f ∈ rest, 1 ≤ f.sequence ∧ f.sequence < first.sequence := by
    intro f hf
    have hmem := hperm.mem_iff.mp (List.mem_map_of_mem hf)
    rw [List.mem_range'_1] at hmem
    omega
  constructor
  · omega
  · exact hchecksum
  · intro f hf
    have := hbounds f hf
    omega
  · rw [List.map_cons, List.nodup_cons]
    constructor
    · intro hmem
      obtain ⟨f, hf, hsequence⟩ := List.mem_map.mp hmem
      have := hbounds f hf
      omega
    · exact hperm.nodup_iff.mpr List.nodup_range'

end PartialName

end Fat32
