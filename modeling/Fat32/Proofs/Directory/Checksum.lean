import Fat32.Proofs.Directory.Chunks
import Fat32.Proofs.Directory.RoundTrip

/-!
# What a checksum tells

The checksum of a short name turns the sum by a bit and adds the next byte. Both can be undone, so
two sums that differ once differ to the end: short names that differ in just one byte have
different checksums. Fragments that were written for the one are never taken for the other.
-/

namespace Fat32

namespace ShortName

def sumFrom (sum : UInt8) (bytes : List UInt8) : UInt8 :=
  bytes.foldl (fun sum b => rotateRight sum + b) sum

theorem sumFrom_append_cons (sum : UInt8) (before : List UInt8) (b : UInt8) (rest : List UInt8) :
    sumFrom sum (before ++ b :: rest) = sumFrom (rotateRight (sumFrom sum before) + b) rest := by
  simp [sumFrom]

theorem toNat_rotateRight (sum : UInt8) :
    (rotateRight sum).toNat = 2 ^ 7 * (sum.toNat % 2) + sum.toNat / 2 := by
  have hbound := sum.toNat_lt
  have hlow : sum.toNat / 2 < 2 ^ 7 := by omega
  have hhigh : (sum <<< 7).toNat = 2 ^ 7 * (sum.toNat % 2) := by
    rw [UInt8.toNat_shiftLeft, Nat.shiftLeft_eq]
    change sum.toNat * 2 ^ 7 % 2 ^ 8 = _
    omega
  have hshift : (sum >>> 1).toNat = sum.toNat / 2 := by
    rw [UInt8.toNat_shiftRight]
    change sum.toNat >>> 1 = _
    rw [Nat.shiftRight_eq_div_pow, Nat.pow_one]
  rw [rotateRight, UInt8.toNat_or, hhigh, hshift, Nat.or_comm, Nat.two_pow_add_eq_or_of_lt hlow]

theorem rotateRight_injective {sum other : UInt8} (h : rotateRight sum = rotateRight other) :
    sum = other := by
  have hvalue := congrArg UInt8.toNat h
  rw [toNat_rotateRight, toNat_rotateRight] at hvalue
  have := sum.toNat_lt
  have := other.toNat_lt
  apply UInt8.toNat_inj.mp
  omega

/-- A difference in the sum is carried through all bytes that follow. -/
theorem sumFrom_injective (bytes : List UInt8) {sum other : UInt8}
    (h : sumFrom sum bytes = sumFrom other bytes) : sum = other := by
  induction bytes generalizing sum other with
  | nil => exact h
  | cons b bytes ih => exact rotateRight_injective ((UInt8.add_left_inj b).mp (ih h))

theorem toNat_sumFrom (sum : UInt8) (bytes : List UInt8) :
    (sumFrom sum bytes).toNat = bytes.foldl
      (fun sum b => (((sum &&& 1) <<< 7) + (sum >>> 1) + b.toNat) % 256) sum.toNat := by
  induction bytes generalizing sum with
  | nil => rfl
  | cons b bytes ih =>
      have hstep : (rotateRight sum + b).toNat =
          (((sum.toNat &&& 1) <<< 7) + (sum.toNat >>> 1) + b.toNat) % 256 := by
        rw [UInt8.toNat_add, toNat_rotateRight, Nat.and_one_is_mod, Nat.shiftLeft_eq,
          Nat.shiftRight_eq_div_pow, Nat.mul_comm]
      rw [List.foldl_cons, ← hstep]
      exact ih (rotateRight sum + b)

theorem checksum_set_ne (name : ShortName) {i : Nat} (hi : i < 11) {b : UInt8}
    (hb : b ≠ name[i]) : checksum (name.set i b) ≠ name.checksum := by
  have hlength : i < name.toList.length := by
    rw [Vector.length_toList]
    exact hi
  have hname : name.toList = name.toList.take i ++ name[i] :: name.toList.drop (i + 1) := by
    rw [← Vector.getElem_toList hlength, List.getElem_cons_drop, List.take_append_drop]
  have hset : (name.set i b).toList = name.toList.take i ++ b :: name.toList.drop (i + 1) := by
    rw [Vector.toList_set, List.set_eq_take_append_cons_drop, if_pos hlength]
  intro h
  have hsum : sumFrom 0 (name.toList.take i ++ b :: name.toList.drop (i + 1)) =
      sumFrom 0 (name.toList.take i ++ name[i] :: name.toList.drop (i + 1)) := by
    rw [← hset, ← hname]
    exact h
  rw [sumFrom_append_cons, sumFrom_append_cons] at hsum
  exact hb ((UInt8.add_right_inj _).mp (sumFrom_injective _ hsum))

end ShortName

namespace Directory

theorem Spells.not_isLongName {checksum : UInt8} {fragments : List RawSlot} {raw : RawSlot}
    (h : Spells checksum fragments) (hraw : raw.shortName.checksum ≠ checksum)
    (earlier : List RawSlot) (text : String) : ¬ IsLongName (earlier ++ fragments) raw text := by
  intro hlong
  obtain ⟨name, hwaiting, -, hchecksum, -⟩ := isLongName_iff.mp hlong
  obtain ⟨name', hwaiting', -, hchecksum', -⟩ := h.exists_waiting earlier
  obtain rfl : name = name' := Option.some.inj (hwaiting.symm.trans hwaiting')
  exact hraw (hchecksum.symm.trans hchecksum')

theorem ofBytes_ofSlots (slots : List RawSlot) :
    Entry.ofBytes (Bytes.ofSlots slots) = (decoded slots).entries.toList := by
  have hslots : (Bytes.ofSlots slots).slots = slots := by
    simpa [Bytes.slots_of_length_lt] using Bytes.slots_ofSlots slots []
  rw [Entry.ofBytes, Decoder.decode, hslots]

/-- After slots that hold no entry an entry is read as its own slot and those before it say. What
follows is read as if the directory began there. -/
theorem exists_describes {before between : List RawSlot} {raw : RawSlot}
    (hends : ∀ slot ∈ before ++ between, ¬ slot.IsEnd) (hentries : ∀ slot ∈ between, ¬ slot.IsEntry)
    (hraw : raw.IsEntry) (rest : List RawSlot) :
    ∃ entry, Describes (before ++ between) raw entry ∧
      (decoded (before ++ between ++ raw :: rest)).entries.toList =
        (decoded before).entries.toList ++ entry :: (decoded rest).entries.toList := by
  have hhere : (decoded (before ++ between ++ [raw])).entries.toList =
      (decoded before).entries.toList
        ++ [raw.entry.named ((decoded (before ++ between)).decoder.nameFor raw.entry).1] := by
    rw [entries_concat hends, if_pos hraw, entries_append hends hentries]
  have hsettled : Settled (before ++ between ++ [raw]) :=
    settled_concat fun hfragment => hraw.2.2 hfragment.2.2
  have hall : ∀ slot ∈ before ++ between ++ [raw], ¬ slot.IsEnd :=
    List.forall_mem_append.mpr ⟨hends, List.forall_mem_singleton.mpr hraw.1⟩
  have hrest := Decoder.decodeSlots_append_of_initial (hsettled.decoder_eq hall) rest
  have hdone : (decoded (before ++ between ++ [raw] ++ rest)).entries.toList =
      (decoded (before ++ between ++ [raw])).entries.toList ++ (decoded rest).entries.toList := by
    rw [decoded, hrest]
    exact Array.toList_append
  refine ⟨_, describes_entry hends, ?_⟩
  rw [List.append_cons, hdone, hhere, List.append_assoc]
  rfl

/-- The checksum of a short name is the sum of the format, and another byte in one place changes
it. Before the entry of a name that is changed in this way, the fragments of a whole long name that
was written for the first are no long name, and the entry goes by its short name. -/
theorem checksum_detects_byte (name : ShortName) :
    name.checksum.toNat = name.toList.foldl
      (fun sum b => (((sum &&& 1) <<< 7) + (sum >>> 1) + b.toNat) % 256) 0 ∧
    ∀ (i : Fin 11) (b : UInt8), b ≠ name[i] →
      ShortName.checksum (name.set i b) ≠ name.checksum ∧
      ∀ (earlier fragments rest : List RawSlot) (raw : RawSlot),
        (∀ slot ∈ earlier, ¬ slot.IsEnd) → Spells name.checksum fragments →
        raw.IsEntry → raw.shortName = name.set i b →
        (∀ text, ¬ IsLongName (earlier ++ fragments) raw text) ∧
        ∃ entry, Describes (earlier ++ fragments) raw entry ∧ entry.name = entry.shortName ∧
          Entry.ofBytes (Bytes.ofSlots (earlier ++ fragments ++ raw :: rest)) =
            Entry.ofBytes (Bytes.ofSlots earlier) ++
              entry :: Entry.ofBytes (Bytes.ofSlots rest) := by
  refine ⟨ShortName.toNat_sumFrom 0 name.toList, fun i b hb => ?_⟩
  have hne := ShortName.checksum_set_ne name i.isLt hb
  refine ⟨hne, fun earlier fragments rest raw hearlier hspells hraw hname => ?_⟩
  have hnone := hspells.not_isLongName (hname ▸ hne) earlier
  have hends : ∀ slot ∈ earlier ++ fragments, ¬ slot.IsEnd :=
    List.forall_mem_append.mpr ⟨hearlier, fun slot hslot => (hspells.isFragment slot hslot).1⟩
  have hentries : ∀ slot ∈ fragments, ¬ slot.IsEntry := fun slot hslot hentry =>
    hentry.2.2 (hspells.isFragment slot hslot).2.2
  obtain ⟨entry, hdescribes, hdecoded⟩ := exists_describes hends hentries hraw rest
  refine ⟨hnone, entry, hdescribes, hdescribes.name_eq_shortName hnone, ?_⟩
  rw [ofBytes_ofSlots, ofBytes_ofSlots, ofBytes_ofSlots, hdecoded]

end Directory

namespace Specimen

/-- The fragments of a long name that was written for the entry E stand before the entry F. -/
theorem checksum_detects_byte_mislaid :
    let name : ShortName := .ofFn fun i => if i.val = 0 then 0x45 else 0x20
    let long : Directory.LongName := ⟨"a name of parts", by decide, by decide, by decide⟩
    let raw : RawSlot := Bytes.fieldAt (slot 0x46 0x20 7 1) 0 32
    ShortName.checksum (name.set 0 0x46 (by decide)) ≠ name.checksum ∧
      ∃ entry, entry.name = entry.shortName ∧
        Entry.ofBytes (Bytes.ofSlots (Directory.longSlots name.checksum long.units ++ [raw])) =
          [entry] := by
  intro name long raw
  obtain ⟨hne, hdecoded⟩ := (Directory.checksum_detects_byte name).2 ⟨0, by decide⟩ 0x46 (by decide)
  have hspells := Directory.spells_longSlots name.checksum long
  obtain ⟨-, entry, -, hname, hentries⟩ :=
    hdecoded [] (Directory.longSlots name.checksum long.units) [] raw (List.forall_mem_nil _)
      hspells (by decide) (by decide)
  exact ⟨hne, entry, hname, hentries⟩

end Specimen

end Fat32
