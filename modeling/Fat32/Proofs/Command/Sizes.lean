import Fat32.Command.Options
import Mathlib.Data.Nat.Digits.Defs

/-!
# Sizes in arguments

An argument is read as a size if it writes one: decimal digits, which may have a plus sign before
them and any number of zeros, for a number of at most 64 bits.
-/

namespace Fat32.Command

/-- The text writes a number below 2⁶⁴ in decimal digits, which may stand after a plus sign. -/
def Writes (text : String) (size : Nat) : Prop :=
  ∃ digits : List Nat, digits ≠ [] ∧ (∀ digit ∈ digits, digit < 10) ∧
    (text.toList = digits.map Nat.digitChar ∨ text.toList = '+' :: digits.map Nat.digitChar) ∧
    Nat.ofDigits 10 digits.reverse = size ∧ size < 2 ^ 64

theorem digit?_eq_some_iff {c : Char} {digit : Nat} :
    digit? c = some digit ↔ digit < 10 ∧ c = digit.digitChar := by
  have hchar : ∀ digit < 10, Char.ofNat (48 + digit) = digit.digitChar := by decide
  have hdigit : ∀ digit < 10, digit? digit.digitChar = some digit := by decide
  constructor
  · intro h
    rw [digit?] at h
    split at h <;> rename_i hc
    · have hbounds : 48 ≤ c.toNat ∧ c.toNat ≤ 57 := by
        simpa [Char.isDigit, UInt32.le_iff_toNat_le] using hc
      have hvalue : c.toNat = 48 + digit := by
        have := Option.some.inj h
        simp at this
        omega
      refine ⟨by omega, ?_⟩
      rw [← hchar digit (by omega), ← hvalue, Char.ofNat_toNat]
    · contradiction
  · rintro ⟨hlt, rfl⟩
    exact hdigit digit hlt

theorem foldlM_digit?_eq_some_iff {chars : List Char} {value size : Nat} :
    chars.foldlM (fun value c => (digit? c).map (10 * value + ·)) value = some size ↔
      ∃ digits : List Nat, (∀ digit ∈ digits, digit < 10) ∧ chars = digits.map Nat.digitChar ∧
        digits.foldl (fun value digit => 10 * value + digit) value = size := by
  induction chars generalizing value with
  | nil =>
      constructor
      · intro h
        exact ⟨[], List.forall_mem_nil _, rfl, Option.some.inj h⟩
      · rintro ⟨digits, -, hchars, rfl⟩
        obtain rfl := List.map_eq_nil_iff.mp hchars.symm
        rfl
  | cons c chars ih =>
      rw [List.foldlM_cons, Option.bind_eq_bind, Option.bind_eq_some_iff]
      constructor
      · rintro ⟨next, hnext, hrest⟩
        obtain ⟨digit, hdigit, rfl⟩ := Option.map_eq_some_iff.mp hnext
        obtain ⟨hlt, rfl⟩ := digit?_eq_some_iff.mp hdigit
        obtain ⟨digits, hdigits, rfl, hsize⟩ := ih.mp hrest
        exact ⟨digit :: digits, List.forall_mem_cons.mpr ⟨hlt, hdigits⟩, rfl, hsize⟩
      · rintro ⟨digits, hdigits, hchars, hsize⟩
        obtain ⟨digit, rest, rfl, rfl, rfl⟩ := List.map_eq_cons_iff.mp hchars.symm
        obtain ⟨hlt, hrest⟩ := List.forall_mem_cons.mp hdigits
        refine ⟨10 * value + digit, ?_, ih.mpr ⟨rest, hrest, rfl, hsize⟩⟩
        rw [digit?_eq_some_iff.mpr ⟨hlt, rfl⟩, Option.map_some]

theorem digits?_eq_some_iff {chars : List Char} {size : Nat} :
    digits? chars = some size ↔ ∃ digits : List Nat, digits ≠ [] ∧ (∀ digit ∈ digits, digit < 10) ∧
      chars = digits.map Nat.digitChar ∧ Nat.ofDigits 10 digits.reverse = size := by
  have hvalue (digits : List Nat) : Nat.ofDigits 10 digits.reverse =
      digits.foldl (fun value digit => 10 * value + digit) 0 := by
    rw [Nat.ofDigits_eq_foldr, List.foldr_reverse]
    simp only [Nat.cast_id, Nat.add_comm]
  simp only [hvalue]
  cases chars with
  | nil => simp [digits?, eq_comm]
  | cons c chars =>
      rw [digits?, foldlM_digit?_eq_some_iff]
      · refine exists_congr fun digits => ?_
        constructor
        · rintro ⟨hdigits, hchars, hsize⟩
          refine ⟨?_, hdigits, hchars, hsize⟩
          rintro rfl
          contradiction
        · exact And.right
      · exact List.cons_ne_nil c chars

theorem size?_eq_some_iff {text : String} {size : Nat} :
    size? text = some size ↔ Writes text size := by
  have hbound : size ≤ maxSize ↔ size < 2 ^ 64 := Nat.le_sub_one_iff_lt (by decide)
  rw [size?, Option.filter_eq_some_iff, decide_eq_true_iff, hbound, Writes]
  split <;> rename_i hchars <;> rw [digits?_eq_some_iff]
  · -- no digit is a plus sign, so what stands after the sign are the digits
    have hplus : ∀ digit < 10, Nat.digitChar digit ≠ '+' := by decide
    constructor
    · rintro ⟨⟨digits, hne, hdigits, rfl, hvalue⟩, hlt⟩
      exact ⟨digits, hne, hdigits, .inr hchars, hvalue, hlt⟩
    · rintro ⟨digits, hne, hdigits, hunsigned | hsigned, hvalue, hlt⟩
      · obtain ⟨digit, rest, rfl, hdigit, -⟩ :=
          List.map_eq_cons_iff.mp (hunsigned.symm.trans hchars)
        exact absurd hdigit (hplus digit (hdigits digit List.mem_cons_self))
      · have hrest := List.tail_eq_of_cons_eq (hchars.symm.trans hsigned)
        exact ⟨⟨digits, hne, hdigits, hrest, hvalue⟩, hlt⟩
  · constructor
    · rintro ⟨⟨digits, hne, hdigits, hunsigned, hvalue⟩, hlt⟩
      exact ⟨digits, hne, hdigits, .inl hunsigned, hvalue, hlt⟩
    · rintro ⟨digits, hne, hdigits, hunsigned | hsigned, hvalue, hlt⟩
      · exact ⟨⟨digits, hne, hdigits, hunsigned, hvalue⟩, hlt⟩
      · exact absurd hsigned (hchars _)

end Fat32.Command
