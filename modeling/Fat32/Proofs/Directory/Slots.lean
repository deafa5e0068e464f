import Fat32.Directory.Entry
import Fat32.Proofs.Bytes

/-!
# Slots and their bytes

The bytes of a slot as the format names them, and what the slot is read as: its kind hangs on its
first byte and its attributes alone. Slots that are written one after the other are read back.
-/

namespace Fat32

namespace Bytes

def ofSlots (slots : List RawSlot) : Bytes := slots.flatMap Vector.toList

@[simp] theorem ofSlots_cons (raw : RawSlot) (slots : List RawSlot) :
    ofSlots (raw :: slots) = raw.toList ++ ofSlots slots := rfl

theorem length_takeSlots (count : Nat) (bytes : Bytes) :
    (bytes.takeSlots count).length = count := by
  induction count generalizing bytes with
  | zero => rfl
  | succ count ih => rw [takeSlots, List.length_cons, ih]

theorem length_slots (bytes : Bytes) : bytes.slots.length = bytes.length / 32 :=
  length_takeSlots _ bytes

theorem byteAt_toList {n : Nat} (field : Vector UInt8 n) {i : Nat} (hi : i < n) (rest : Bytes) :
    byteAt (field.toList ++ rest) i = field[i] := by
  simp [byteAt, List.getElem?_append, hi]

theorem slots_of_length_lt {bytes : Bytes} (h : bytes.length < 32) : bytes.slots = [] := by
  rw [slots, Nat.div_eq_of_lt h]
  rfl

theorem slots_append (raw : RawSlot) (bytes : Bytes) :
    slots (raw.toList ++ bytes) = raw :: slots bytes := by
  have hcount : (raw.toList ++ bytes).length / 32 = bytes.length / 32 + 1 := by
    simp
  have hfield : fieldAt (raw.toList ++ bytes) 0 32 = raw := by
    apply Vector.ext
    intro i hi
    simpa [fieldAt] using byteAt_toList raw hi bytes
  have hdrop : (raw.toList ++ bytes).drop 32 = bytes := by
    simp
  rw [slots, hcount, takeSlots, hfield, hdrop, slots]

theorem slots_ofSlots (slots : List RawSlot) (bytes : Bytes) :
    Bytes.slots (ofSlots slots ++ bytes) = slots ++ Bytes.slots bytes := by
  induction slots with
  | nil => rfl
  | cons raw slots ih => rw [ofSlots_cons, List.append_assoc, slots_append, ih, List.cons_append]

theorem ofSlots_takeSlots {count : Nat} {bytes : Bytes} (h : bytes.length = 32 * count) :
    ofSlots (bytes.takeSlots count) = bytes := by
  induction count generalizing bytes with
  | zero => exact (List.length_eq_zero_iff.mp h).symm
  | succ count ih =>
      have hfirst : (bytes.take 32).length = 32 := by
        rw [List.length_take]
        omega
      have hfield : (bytes.fieldAt 0 32).toList = bytes.take 32 := by
        have hwithin : 0 + 32 ≤ (bytes.take 32).length := by omega
        have hleft := fieldAt_append_left (bytes.drop 32) hwithin
        rw [List.take_append_drop] at hleft
        rw [hleft, toList_fieldAt hfirst]
      have hrest : (bytes.drop 32).length = 32 * count := by
        rw [List.length_drop]
        omega
      rw [takeSlots, ofSlots_cons, hfield, ih hrest, List.take_append_drop]

theorem slots_append_of_dvd {bytes : Bytes} (h : 32 ∣ bytes.length) (more : Bytes) :
    slots (bytes ++ more) = slots bytes ++ slots more := by
  have hbytes : ofSlots bytes.slots = bytes := ofSlots_takeSlots (Nat.mul_div_cancel' h).symm
  rw [← slots_ofSlots bytes.slots more, hbytes]

end Bytes

namespace RawSlot

def byte (raw : RawSlot) (offset : Nat) : UInt8 := Bytes.byteAt raw.toList offset

def IsEnd (raw : RawSlot) : Prop := raw.byte 0 = 0x00

def IsDeleted (raw : RawSlot) : Prop := raw.byte 0 = 0xE5

def IsFragment (raw : RawSlot) : Prop :=
  raw.byte 0 ≠ 0x00 ∧ raw.byte 0 ≠ 0xE5 ∧ raw.byte 11 &&& 0x3F = 0x0F

def IsEntry (raw : RawSlot) : Prop :=
  raw.byte 0 ≠ 0x00 ∧ raw.byte 0 ≠ 0xE5 ∧ raw.byte 11 &&& 0x3F ≠ 0x0F

instance : DecidablePred IsEnd := fun raw => inferInstanceAs (Decidable (raw.byte 0 = 0x00))

instance : DecidablePred IsDeleted := fun raw => inferInstanceAs (Decidable (raw.byte 0 = 0xE5))

instance : DecidablePred IsFragment := fun raw =>
  inferInstanceAs (Decidable (raw.byte 0 ≠ 0x00 ∧ raw.byte 0 ≠ 0xE5 ∧ raw.byte 11 &&& 0x3F = 0x0F))

instance : DecidablePred IsEntry := fun raw =>
  inferInstanceAs (Decidable (raw.byte 0 ≠ 0x00 ∧ raw.byte 0 ≠ 0xE5 ∧ raw.byte 11 &&& 0x3F ≠ 0x0F))

def IsLast (raw : RawSlot) : Prop := raw.byte 0 &&& 0x40 ≠ 0

instance : DecidablePred IsLast := fun raw => inferInstanceAs (Decidable (raw.byte 0 &&& 0x40 ≠ 0))

def sequence (raw : RawSlot) : Nat := (raw.byte 0 &&& 0x1F).toNat

def units (raw : RawSlot) : List UInt16 :=
  [1, 3, 5, 7, 9, 14, 16, 18, 20, 22, 24, 28, 30].map fun offset => Bytes.u16At raw.toList offset

def shortName (raw : RawSlot) : ShortName := .ofFn fun i => raw[i.val]

/-! ## What a slot is read as -/

abbrev fragment (raw : RawSlot) : Fragment := .ofBytes raw.toList

abbrev entry (raw : RawSlot) : ShortEntry := .ofBytes raw.toList

theorem byte_eq (raw : RawSlot) {i : Nat} (hi : i < 32) : raw.byte i = raw[i] := by
  simpa [byte] using Bytes.byteAt_toList raw hi []

theorem ofRaw_eq (raw : RawSlot) : Slot.ofRaw raw =
    if raw.byte 0 = 0x00 then .endMark
    else if raw.byte 0 = 0xE5 then .deleted
    else if raw.byte 11 &&& 0x3F = 0x0F then .fragment raw.fragment
    else .short raw.entry := by
  simp [Slot.ofRaw, Slot.endByte, ShortName.deletedMark, Attributes.isLongName,
    Attributes.longNamePattern, byte_eq]

theorem ofRaw_of_isEnd {raw : RawSlot} (h : raw.IsEnd) : Slot.ofRaw raw = .endMark := by
  rw [ofRaw_eq]
  exact if_pos h

theorem ofRaw_of_isDeleted {raw : RawSlot} (h : raw.IsDeleted) : Slot.ofRaw raw = .deleted := by
  have hend : raw.byte 0 ≠ 0x00 := by
    rw [h]
    decide
  rw [ofRaw_eq, if_neg hend]
  exact if_pos h

theorem ofRaw_of_isFragment {raw : RawSlot} (h : raw.IsFragment) :
    Slot.ofRaw raw = .fragment raw.fragment := by
  obtain ⟨hend, hdeleted, hlong⟩ := h
  rw [ofRaw_eq, if_neg hend, if_neg hdeleted, if_pos hlong]

theorem ofRaw_of_isEntry {raw : RawSlot} (h : raw.IsEntry) :
    Slot.ofRaw raw = .short raw.entry := by
  obtain ⟨hend, hdeleted, hlong⟩ := h
  rw [ofRaw_eq, if_neg hend, if_neg hdeleted, if_neg hlong]

theorem kind_cases (raw : RawSlot) :
    raw.IsEnd ∨ raw.IsDeleted ∨ raw.IsFragment ∨ raw.IsEntry := by
  by_cases hend : raw.byte 0 = 0x00
  · exact .inl hend
  by_cases hdeleted : raw.byte 0 = 0xE5
  · exact .inr (.inl hdeleted)
  by_cases hlong : raw.byte 11 &&& 0x3F = 0x0F
  · exact .inr (.inr (.inl ⟨hend, hdeleted, hlong⟩))
  · exact .inr (.inr (.inr ⟨hend, hdeleted, hlong⟩))

theorem IsDeleted.not_isEnd {raw : RawSlot} (h : raw.IsDeleted) : ¬ raw.IsEnd := by
  rw [IsEnd, h]
  decide

theorem sequence_fragment (raw : RawSlot) : raw.fragment.sequence = raw.sequence := by
  rw [Fragment.sequence, sequence]
  rfl

theorem isLast_fragment (raw : RawSlot) : raw.fragment.isLast = true ↔ raw.IsLast := by
  simp [Fragment.isLast, Fragment.ofBytes, IsLast, Fragment.lastFlag, byte]

theorem checksum_fragment (raw : RawSlot) : raw.fragment.checksum = raw.byte 13 :=
  rfl

theorem units_fragment (raw : RawSlot) : raw.fragment.units.toList = raw.units := by
  rfl

theorem name_entry (raw : RawSlot) : raw.entry.name = raw.shortName := by
  apply Vector.ext
  intro i hi
  simpa [ShortEntry.ofBytes, Bytes.fieldAt, shortName, byte] using raw.byte_eq (by omega)

end RawSlot

end Fat32
