import Fat32.Text.Utf16

/-!
# UTF-16 written and read back

Text as 16-bit code units. A character outside the basic plane is written as a surrogate pair,
every other character as one unit, so no surrogate of written text is unpaired.
-/

namespace Fat32.Text.Utf16

def unitsOf (char : Char) : List UInt16 :=
  if char.toNat < 0x10000 then [.ofNat char.toNat]
  else
    [.ofNat (0xD800 + (char.toNat - 0x10000) / 0x400),
      .ofNat (0xDC00 + (char.toNat - 0x10000) % 0x400)]

def encode (text : List Char) : List UInt16 := text.flatMap unitsOf

theorem toNat_bounds (char : Char) :
    char.toNat < 0xD800 ∨ 0xDFFF < char.toNat ∧ char.toNat < 0x110000 :=
  char.valid

theorem isLeading_iff {unit : UInt16} :
    isLeading unit = true ↔ 0xD800 ≤ unit.toNat ∧ unit.toNat < 0xDC00 := by
  simp [isLeading, UInt16.le_iff_toNat_le, UInt16.lt_iff_toNat_lt]

theorem isTrailing_iff {unit : UInt16} :
    isTrailing unit = true ↔ 0xDC00 ≤ unit.toNat ∧ unit.toNat < 0xE000 := by
  simp [isTrailing, UInt16.le_iff_toNat_le, UInt16.lt_iff_toNat_lt]

theorem decodeLossy_single_cons {unit : UInt16}
    (hplain : unit.toNat < 0xD800 ∨ 0xDFFF < unit.toNat) (units : List UInt16) :
    decodeLossy (unit :: units) = single unit :: decodeLossy units := by
  have hleading : ¬ isLeading unit = true := by
    rw [isLeading_iff]
    omega
  have htrailing : ¬ isTrailing unit = true := by
    rw [isTrailing_iff]
    omega
  cases units with
  | nil => simp [decodeLossy, hleading, htrailing]
  | cons next rest => simp [decodeLossy, hleading, htrailing]

theorem decodeLossy_pair_cons {leading trailing : UInt16} (hleading : isLeading leading = true)
    (htrailing : isTrailing trailing = true) (units : List UInt16) :
    decodeLossy (leading :: trailing :: units) = paired leading trailing :: decodeLossy units := by
  simp [decodeLossy, hleading, htrailing]

/-- A surrogate that is not part of a pair is replaced. -/
theorem decodeLossy_unpaired_cons {unit : UInt16} {units : List UInt16}
    (hsurrogate : 0xD800 ≤ unit.toNat ∧ unit.toNat < 0xE000)
    (hunpaired : isLeading unit → ∀ next ∈ units.head?, ¬ isTrailing next) :
    decodeLossy (unit :: units) = '\uFFFD' :: decodeLossy units := by
  by_cases hleading : isLeading unit = true
  · cases units with
    | nil => simp [decodeLossy, hleading, replacement]
    | cons next rest =>
        have hnext : ¬ isTrailing next := hunpaired hleading next rfl
        simp [decodeLossy, hleading, hnext, replacement]
  · have htrailing : isTrailing unit = true := by
      rw [isLeading_iff] at hleading
      rw [isTrailing_iff]
      omega
    cases units <;> simp [decodeLossy, hleading, htrailing, replacement]

theorem decodeLossy_unitsOf (char : Char) (units : List UInt16) :
    decodeLossy (unitsOf char ++ units) = char :: decodeLossy units := by
  have hbounds := toNat_bounds char
  by_cases hbasic : char.toNat < 0x10000
  · have hunit : (UInt16.ofNat char.toNat).toNat = char.toNat := by
      rw [UInt16.toNat_ofNat']
      omega
    rw [unitsOf, if_pos hbasic, List.singleton_append, decodeLossy_single_cons (by omega), single,
      hunit, Char.ofNat_toNat]
  · generalize hoffset : char.toNat - 0x10000 = offset
    have hleading : (UInt16.ofNat (0xD800 + offset / 0x400)).toNat = 0xD800 + offset / 0x400 := by
      rw [UInt16.toNat_ofNat']
      omega
    have htrailing : (UInt16.ofNat (0xDC00 + offset % 0x400)).toNat = 0xDC00 + offset % 0x400 := by
      rw [UInt16.toNat_ofNat']
      omega
    have hchar : 0x10000 + (0xD800 + offset / 0x400 - 0xD800) * 0x400
        + (0xDC00 + offset % 0x400 - 0xDC00) = char.toNat := by
      omega
    rw [unitsOf, if_neg hbasic, hoffset, List.cons_append, List.singleton_append,
      decodeLossy_pair_cons (by rw [isLeading_iff]; omega) (by rw [isTrailing_iff]; omega),
      paired, hleading, htrailing, hchar, Char.ofNat_toNat]

theorem decodeLossy_encode (text : List Char) : decodeLossy (encode text) = text := by
  induction text with
  | nil => rfl
  | cons char text ih =>
      rw [encode, List.flatMap_cons, decodeLossy_unitsOf, ← encode, ih]

example : encode ['a', .ofNat 0x1F600] = [0x0061, 0xD83D, 0xDE00] := by decide

example : decodeLossy [0xDE00, 0x0061, 0xD83D] = ['\uFFFD', 'a', '\uFFFD'] := by decide

theorem mem_unitsOf {char : Char} {unit : UInt16} (hunit : unit ∈ unitsOf char)
    (hplain : unit.toNat < 0xD800 ∨ 0xDFFF < unit.toNat) : char.toNat = unit.toNat := by
  have hbounds := toNat_bounds char
  rw [unitsOf] at hunit
  split at hunit <;> rename_i hbasic
  · rw [List.mem_singleton.mp hunit, UInt16.toNat_ofNat']
    omega
  · simp only [List.mem_cons, List.not_mem_nil, or_false] at hunit
    rcases hunit with rfl | rfl <;> rw [UInt16.toNat_ofNat'] at hplain <;> omega

end Fat32.Text.Utf16
