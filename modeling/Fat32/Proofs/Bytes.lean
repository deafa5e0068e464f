import Fat32.Bytes
import Mathlib.Algebra.Group.Nat.Defs

/-!
# Bytes and words

Words as numbers below a power of 256, words that are written and read back, and what is read
from two runs of bytes one after the other.
-/

namespace Fat32

namespace Bytes

/-! ## Words as numbers -/

theorem valueAt_lt (bytes : Bytes) (offset width : Nat) :
    bytes.valueAt offset width < 256 ^ width := by
  induction width generalizing offset with
  | zero => simp [valueAt]
  | succ width ih =>
      have hbyte := (bytes.byteAt offset).toNat_lt
      have hrest := ih (offset + 1)
      simp only [valueAt, Nat.pow_succ]
      omega

theorem toNat_u32At (bytes : Bytes) (offset : Nat) :
    (bytes.u32At offset).toNat = bytes.valueAt offset 4 := by
  have := bytes.valueAt_lt offset 4
  simp only [u32At, UInt32.toNat_ofNat']
  omega

/-! ## Bytes after others -/

theorem byteAt_append {before : Bytes} {offset : Nat} (h : before.length = offset) (byte : UInt8)
    (rest : Bytes) : byteAt (before ++ byte :: rest) offset = byte := by
  simp [byteAt, h.symm]

theorem valueAt_append (before bytes : Bytes) (offset width : Nat) :
    valueAt (before ++ bytes) (before.length + offset) width = valueAt bytes offset width := by
  induction width generalizing offset with
  | zero => rfl
  | succ width ih =>
      have hbyte : byteAt (before ++ bytes) (before.length + offset) = byteAt bytes offset := by
        simp [byteAt, List.getElem?_append_right (Nat.le_add_right before.length offset)]
      rw [valueAt, valueAt, hbyte, Nat.add_assoc, ih]

/-! ## Bytes before others -/

section

variable {bytes : Bytes} (rest : Bytes)

theorem byteAt_append_left {i : Nat} (h : i < bytes.length) :
    byteAt (bytes ++ rest) i = byteAt bytes i := by
  simp [byteAt, List.getElem?_append_left h]

theorem valueAt_append_left {offset width : Nat} (h : offset + width ≤ bytes.length) :
    valueAt (bytes ++ rest) offset width = valueAt bytes offset width := by
  induction width generalizing offset with
  | zero => rfl
  | succ width ih => rw [valueAt, valueAt, byteAt_append_left rest (by omega), ih (by omega)]

theorem fieldAt_append_left {offset n : Nat} (h : offset + n ≤ bytes.length) :
    fieldAt (bytes ++ rest) offset n = fieldAt bytes offset n := by
  apply Vector.ext
  intro i hi
  simp [fieldAt, byteAt_append_left rest (show offset + i < bytes.length by omega)]

end

/-! ## Writing words -/

def ofValue : (width value : Nat) → Bytes
  | 0, _ => []
  | width + 1, value => .ofNat value :: ofValue width (value / 256)

@[simp] theorem length_ofValue (width value : Nat) : (ofValue width value).length = width := by
  induction width generalizing value with
  | zero => rfl
  | succ width ih => simp [ofValue, ih]

theorem valueAt_ofValue (width value : Nat) (rest : Bytes) :
    valueAt (ofValue width value ++ rest) 0 width = value % 256 ^ width := by
  induction width generalizing value with
  | zero => simp [valueAt, Nat.mod_one]
  | succ width ih =>
      have hnext := valueAt_append [.ofNat value] (ofValue width (value / 256) ++ rest) 0 width
      rw [ih] at hnext
      rw [valueAt, ofValue, List.cons_append, Nat.pow_succ', Nat.mod_mul]
      rw [List.singleton_append, List.length_singleton] at hnext
      rw [hnext]
      simp [byteAt]

theorem valueAt_field {before : Bytes} {offset : Nat} (h : before.length = offset)
    (width value : Nat) (rest : Bytes) :
    valueAt (before ++ (ofValue width value ++ rest)) offset width = value % 256 ^ width := by
  rw [← h, ← Nat.add_zero before.length, valueAt_append, valueAt_ofValue]

theorem toList_fieldAt {bytes : Bytes} {n : Nat} (h : bytes.length = n) :
    (bytes.fieldAt 0 n).toList = bytes := by
  subst h
  apply List.ext_getElem
  · simp
  · intro i hi hi'
    simp [fieldAt, byteAt]

/-! ## Fields at offsets -/

def HasAt (bytes : Bytes) (offset : Nat) (field : Bytes) : Prop := field <+: bytes.drop offset

instance (bytes : Bytes) (offset : Nat) (field : Bytes) : Decidable (bytes.HasAt offset field) :=
  inferInstanceAs (Decidable (field <+: bytes.drop offset))

theorem hasAt_iff {bytes field : Bytes} {offset : Nat} :
    bytes.HasAt offset field ↔ ∀ i < field.length, bytes[offset + i]? = field[i]? := by
  rw [HasAt, List.prefix_iff_getElem?]
  constructor
  · intro h i hi
    rw [← List.getElem?_drop, h i hi, List.getElem?_eq_getElem hi]
  · intro h i hi
    rw [List.getElem?_drop, h i hi, List.getElem?_eq_getElem hi]

theorem byteAt_drop (bytes : Bytes) (offset i : Nat) :
    byteAt (bytes.drop offset) i = byteAt bytes (offset + i) := by
  simp [byteAt]

theorem valueAt_drop (bytes : Bytes) (offset i width : Nat) :
    valueAt (bytes.drop offset) i width = valueAt bytes (offset + i) width := by
  induction width generalizing i with
  | zero => rfl
  | succ width ih => rw [valueAt, valueAt, byteAt_drop, ih, Nat.add_assoc]

namespace HasAt

variable {bytes : Bytes} {offset : Nat}

theorem byteAt_eq {byte : UInt8} (h : bytes.HasAt offset [byte]) : bytes.byteAt offset = byte := by
  obtain ⟨rest, hrest⟩ := h
  rw [← Nat.add_zero offset, ← byteAt_drop, ← hrest]
  rfl

theorem valueAt_eq {width value : Nat} (h : bytes.HasAt offset (ofValue width value)) :
    bytes.valueAt offset width = value % 256 ^ width := by
  obtain ⟨rest, hrest⟩ := h
  rw [← Nat.add_zero offset, ← valueAt_drop, ← hrest, valueAt_ofValue]

theorem u16At_eq {word : UInt16} (h : bytes.HasAt offset (ofValue 2 word.toNat)) :
    bytes.u16At offset = word := by
  have hword : word.toNat % 256 ^ 2 = word.toNat := Nat.mod_eq_of_lt word.toNat_lt
  rw [u16At, h.valueAt_eq, hword, UInt16.ofNat_toNat]

theorem u32At_eq {word : UInt32} (h : bytes.HasAt offset (ofValue 4 word.toNat)) :
    bytes.u32At offset = word := by
  have hword : word.toNat % 256 ^ 4 = word.toNat := Nat.mod_eq_of_lt word.toNat_lt
  rw [u32At, h.valueAt_eq, hword, UInt32.ofNat_toNat]

theorem fieldAt_eq {n : Nat} {field : Vector UInt8 n} (h : bytes.HasAt offset field.toList) :
    bytes.fieldAt offset n = field := by
  obtain ⟨rest, hrest⟩ := h
  apply Vector.ext
  intro i hi
  rw [fieldAt, Vector.getElem_ofFn, ← byteAt_drop, ← hrest]
  simp [byteAt, List.getElem?_append, hi]

end HasAt

/-- Puts a part, which is an offset and bytes, in the place of the bytes that stand there. -/
def write (bytes : Bytes) (part : Nat × Bytes) : Bytes :=
  bytes.take part.1 ++ part.2 ++ bytes.drop (part.1 + part.2.length)

section

variable {bytes : Bytes} {part : Nat × Bytes} (hroom : part.1 + part.2.length ≤ bytes.length)
include hroom

theorem length_write : (bytes.write part).length = bytes.length := by
  simp only [write, List.length_append, List.length_take, List.length_drop]
  omega

theorem getElem?_write (i : Nat) : (bytes.write part)[i]? =
    if i < part.1 ∨ part.1 + part.2.length ≤ i then bytes[i]? else part.2[i - part.1]? := by
  have hbefore : (bytes.take part.1).length = part.1 := by
    rw [List.length_take]
    omega
  rw [write, List.append_assoc]
  by_cases hlow : i < part.1
  · rw [if_pos (.inl hlow), List.getElem?_append_left (by omega), List.getElem?_take_of_lt hlow]
  rw [List.getElem?_append_right (by omega), hbefore]
  by_cases hhigh : part.1 + part.2.length ≤ i
  · rw [if_pos (.inr hhigh), List.getElem?_append_right (by omega), List.getElem?_drop]
    congr 1
    omega
  · rw [if_neg (by omega), List.getElem?_append_left (by omega)]

theorem hasAt_write : (bytes.write part).HasAt part.1 part.2 := by
  refine hasAt_iff.mpr fun i hi => ?_
  rw [getElem?_write hroom, if_neg (by omega), Nat.add_sub_cancel_left]

end

theorem exists_hasAt {bytes : Bytes} {parts : List (Nat × Bytes)}
    (hroom : ∀ part ∈ parts, part.1 + part.2.length ≤ bytes.length)
    (happart : parts.Pairwise fun part later => part.1 + part.2.length ≤ later.1) :
    ∃ written : Bytes, written.length = bytes.length ∧
      (∀ part ∈ parts, written.HasAt part.1 part.2) ∧
      ∀ i, (∀ part ∈ parts, i < part.1 ∨ part.1 + part.2.length ≤ i) →
        written[i]? = bytes[i]? := by
  induction parts generalizing bytes with
  | nil => exact ⟨bytes, rfl, List.forall_mem_nil _, fun _ _ => rfl⟩
  | cons part parts ih =>
      obtain ⟨hfirst, hrest⟩ := List.forall_mem_cons.mp hroom
      obtain ⟨hbefore, happart⟩ := List.pairwise_cons.mp happart
      have hlength := length_write hfirst
      have hroom' : ∀ later ∈ parts, later.1 + later.2.length ≤ (bytes.write part).length :=
        fun later hlater => hlength ▸ hrest later hlater
      obtain ⟨written, hwritten, hhas, hkept⟩ := ih hroom' happart
      refine ⟨written, hwritten.trans hlength, List.forall_mem_cons.mpr ⟨?_, hhas⟩, ?_⟩
      · -- the later parts leave this one as it is
        refine hasAt_iff.mpr fun i hi => ?_
        rw [hkept (part.1 + i) fun later hlater => .inl (by have := hbefore later hlater; omega)]
        exact hasAt_iff.mp (hasAt_write hfirst) i hi
      · intro i hi
        obtain ⟨houtside, hothers⟩ := List.forall_mem_cons.mp hi
        rw [hkept i hothers, getElem?_write hfirst, if_pos houtside]

end Bytes

end Fat32
