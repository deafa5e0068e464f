import Fat32.Proofs.Directory.Checksum
import Fat32.Proofs.Volume.DotNames
import Mathlib.Data.List.DropRight
import Mathlib.Data.List.TakeWhile

/-!
# Short names told apart

A short name is shown without the spaces that fill up its two fields, and with a dot where it has
an extension. Nothing is lost by that: the fields have fixed lengths, and as long as no byte of a
name is a dot, the only dot that is shown is the one between them. So names without dots and
lower-case letters are shown alike only if they are the same, and none of them as a dot name.
-/

namespace Fat32

namespace Text

variable {α : Type} [DecidableEq α]

theorem dropTrailing_append_replicate (fill : α) (items : List α) :
    dropTrailing (· == fill) items
      ++ List.replicate (items.length - (dropTrailing (· == fill) items).length) fill = items := by
  have hparts : dropTrailing (· == fill) items ++ items.rtakeWhile (· == fill) = items :=
    List.rdropWhile_append_rtakeWhile
  have hfill : items.rtakeWhile (· == fill) =
      List.replicate (items.rtakeWhile (· == fill)).length fill :=
    List.eq_replicate_iff.mpr ⟨rfl, fun _ hitem => by simpa using List.mem_rtakeWhile_imp hitem⟩
  have hcount := congrArg List.length hparts
  rw [List.length_append] at hcount
  rw [← Nat.eq_sub_of_add_eq' hcount, ← hfill, hparts]

theorem eq_of_dropTrailing_eq {fill : α} {items others : List α}
    (hlength : items.length = others.length)
    (h : dropTrailing (· == fill) items = dropTrailing (· == fill) others) : items = others := by
  rw [← dropTrailing_append_replicate fill items, ← dropTrailing_append_replicate fill others, h,
    hlength]

end Text

namespace ShortName

/-- A byte of a name that is neither a lower-case letter nor a dot. -/
def IsPlain (b : UInt8) : Prop := ¬ (0x61 ≤ b ∧ b ≤ 0x7A) ∧ b ≠ 0x2E

instance : DecidablePred IsPlain := fun b =>
  inferInstanceAs (Decidable (¬ (0x61 ≤ b ∧ b ≤ 0x7A) ∧ b ≠ 0x2E))

/-! ## Fields -/

theorem toNat_ofNat (b : UInt8) : (Char.ofNat b.toNat).toNat = b.toNat := by
  have hvalid : b.toNat.isValidChar := .inl (b.toNat_lt.trans (by decide))
  rw [Char.ofNat, dif_pos hvalid]
  rfl

theorem ofNat_injective : Function.Injective fun b : UInt8 => Char.ofNat b.toNat := by
  intro b other h
  apply UInt8.toNat_inj.mp
  rw [← toNat_ofNat b, ← toNat_ofNat other]
  exact congrArg Char.toNat h

theorem IsPlain.toUpper_eq {b : UInt8} (h : IsPlain b) :
    (Char.ofNat b.toNat).toUpper = Char.ofNat b.toNat := by
  refine dif_neg fun hlower => h.1 ?_
  have hbounds : 97 ≤ (Char.ofNat b.toNat).toNat ∧ (Char.ofNat b.toNat).toNat ≤ 122 :=
    hlower.imp UInt32.le_iff_toNat_le.mp UInt32.le_iff_toNat_le.mp
  rw [toNat_ofNat] at hbounds
  exact ⟨UInt8.le_iff_toNat_le.mpr hbounds.1, UInt8.le_iff_toNat_le.mpr hbounds.2⟩

theorem fieldText_eq {field : List UInt8} (h : ∀ b ∈ field, IsPlain b) : fieldText field =
    (Text.dropTrailing (· == space) field).map fun b => Char.ofNat b.toNat := by
  refine List.map_congr_left fun b hb => IsPlain.toUpper_eq (h b ?_)
  exact (List.rdropWhile_prefix (· == space) field).subset hb

theorem dot_notMem_fieldText {field : List UInt8} (h : ∀ b ∈ field, IsPlain b) :
    '.' ∉ fieldText field := by
  rw [fieldText_eq h]
  intro hdot
  obtain ⟨b, hb, hchar⟩ := List.mem_map.mp hdot
  have hmem := (List.rdropWhile_prefix (· == space) field).subset hb
  exact (h b hmem).2 (ofNat_injective hchar)

theorem eq_of_fieldText_eq {field other : List UInt8} (hfield : ∀ b ∈ field, IsPlain b)
    (hother : ∀ b ∈ other, IsPlain b) (hlength : field.length = other.length)
    (h : fieldText field = fieldText other) : field = other := by
  rw [fieldText_eq hfield, fieldText_eq hother] at h
  exact Text.eq_of_dropTrailing_eq hlength (List.map_injective_iff.mpr ofNat_injective h)

/-! ## Names -/

/-- The first byte of a name is not the mark of a deleted entry, and all of its bytes are plain. -/
structure IsRegular (name : ShortName) : Prop where
  not_deleted : name.head ≠ 0xE5
  plain : ∀ b ∈ name.toList, IsPlain b

/-- A first byte that is escaped is told from all others, since none is what it stands for. -/
theorem eq_of_unescaped_eq {name other : ShortName} (hname : name.head ≠ 0xE5)
    (hother : other.head ≠ 0xE5) (h : name.unescaped = other.unescaped) : name = other := by
  have hvector : (if name[0] = markEscape then name.set 0 deletedMark else name) =
      if other[0] = markEscape then other.set 0 deletedMark else other := Vector.toList_inj.mp h
  split at hvector <;> rename_i hescape <;> split at hvector <;> rename_i hescape'
  · have hrestored := congrArg (fun v : ShortName => v.set 0 markEscape) hvector
    simp only [Vector.set_set] at hrestored
    rwa [← hescape, Vector.set_getElem_self, hescape, ← hescape', Vector.set_getElem_self]
      at hrestored
  · exact absurd (hvector ▸ Vector.getElem_set_self (by decide)) hother
  · exact absurd (hvector ▸ Vector.getElem_set_self (by decide)) hname
  · exact hvector

theorem IsRegular.plain_unescaped {name : ShortName} (h : name.IsRegular) :
    ∀ b ∈ name.unescaped, IsPlain b := by
  intro b hb
  rw [unescaped] at hb
  split at hb
  · rw [Vector.toList_set] at hb
    rcases List.mem_or_eq_of_mem_set hb with hmem | rfl
    · exact h.plain b hmem
    · decide
  · exact h.plain b hb

def base (name : ShortName) : List Char := fieldText (name.unescaped.take 8)

def extension (name : ShortName) : List Char := fieldText (name.unescaped.drop 8)

def dotted : (extension : List Char) → List Char
  | [] => []
  | extension => '.' :: extension

theorem toList_display (name : ShortName) :
    name.display.toList = name.base ++ dotted name.extension := by
  rw [display, ← base, ← extension]
  cases name.extension <;> simp [dotted]

theorem dotted_injective : Function.Injective dotted := by
  intro extension other h
  cases extension with
  | nil => cases other with
    | nil => rfl
    | cons c other => contradiction
  | cons c extension => cases other with
    | nil => contradiction
    | cons d other => exact List.tail_eq_of_cons_eq h

theorem dotted_eq_cons_iff {extension rest : List Char} :
    dotted extension = '.' :: rest ↔ extension ≠ [] ∧ extension = rest := by
  cases extension <;> simp [dotted]

namespace IsRegular

variable {name other : ShortName}

theorem plain_base (h : name.IsRegular) : ∀ b ∈ name.unescaped.take 8, IsPlain b :=
  fun b hb => h.plain_unescaped b (List.mem_of_mem_take hb)

theorem plain_extension (h : name.IsRegular) : ∀ b ∈ name.unescaped.drop 8, IsPlain b :=
  fun b hb => h.plain_unescaped b (List.mem_of_mem_drop hb)

theorem ne_dot_of_mem_base (h : name.IsRegular) : ∀ c ∈ name.base, (c != '.') = true :=
  fun _ hc => bne_iff_ne.mpr (ne_of_mem_of_not_mem hc (dot_notMem_fieldText h.plain_base))

theorem takeWhile_display (h : name.IsRegular) :
    name.display.toList.takeWhile (· != '.') = name.base := by
  rw [toList_display, List.takeWhile_append_of_pos h.ne_dot_of_mem_base]
  cases name.extension <;> simp [dotted]

theorem dropWhile_display (h : name.IsRegular) :
    name.display.toList.dropWhile (· != '.') = dotted name.extension := by
  rw [toList_display, List.dropWhile_append_of_pos h.ne_dot_of_mem_base]
  cases name.extension <;> simp [dotted]

theorem eq_of_display_eq (h : name.IsRegular) (hother : other.IsRegular)
    (heq : name.display = other.display) : name = other := by
  have hbase : name.base = other.base := by
    rw [← h.takeWhile_display, heq, hother.takeWhile_display]
  have hextension : name.extension = other.extension := by
    apply dotted_injective
    rw [← h.dropWhile_display, heq, hother.dropWhile_display]
  have hfront : name.unescaped.take 8 = other.unescaped.take 8 :=
    eq_of_fieldText_eq h.plain_base hother.plain_base (by simp [unescaped]) hbase
  have hback : name.unescaped.drop 8 = other.unescaped.drop 8 :=
    eq_of_fieldText_eq h.plain_extension hother.plain_extension (by simp [unescaped]) hextension
  apply eq_of_unescaped_eq h.not_deleted hother.not_deleted
  rw [← List.take_append_drop 8 name.unescaped, hfront, hback, List.take_append_drop]

/-- What follows the first dot of a dot name is nothing or another dot, and no extension is. -/
theorem not_isDotName (h : name.IsRegular) : ¬ IsDotName name.display := by
  have hdot : '.' ∉ name.extension := dot_notMem_fieldText h.plain_extension
  have hrest := h.dropWhile_display
  rintro (hname | hname)
  · have hempty : dotted name.extension = ['.'] := by
      rw [← hrest, hname]
      decide
    obtain ⟨hne, hextension⟩ := dotted_eq_cons_iff.mp hempty
    exact hne hextension
  · have hdots : dotted name.extension = ['.', '.'] := by
      rw [← hrest, hname]
      decide
    rw [(dotted_eq_cons_iff.mp hdots).2] at hdot
    exact hdot (List.mem_singleton_self '.')

end IsRegular

end ShortName

/-! ## Entries -/

/-- The slot of an entry that is no volume label, with a short name of plain bytes. -/
structure RawSlot.IsRegular (raw : RawSlot) : Prop where
  isEntry : raw.IsEntry
  not_label : raw.byte 11 &&& 0x08 = 0
  plain : ∀ b ∈ raw.shortName.toList, ShortName.IsPlain b

namespace RawSlot.IsRegular

variable {raw : RawSlot}

theorem shortName (h : raw.IsRegular) : raw.shortName.IsRegular where
  not_deleted := by
    have hfirst : raw.shortName.head = raw.byte 0 := by
      rw [raw.byte_eq (by decide), Vector.head, RawSlot.shortName, Vector.getElem_ofFn]
    rw [hfirst]
    exact h.isEntry.2.1
  plain := h.plain

theorem displayName_eq (h : raw.IsRegular) : raw.entry.displayName = raw.shortName.display := by
  have hlabel : raw.entry.attributes.isVolumeLabel = false := by
    have hzero : raw.entry.attributes.bits &&& 0x08 = 0 := h.not_label
    simp [Attributes.isVolumeLabel, Attributes.labelBit, hzero]
  rw [ShortEntry.displayName, hlabel, if_neg Bool.false_ne_true, raw.name_entry]

end RawSlot.IsRegular

namespace Directory

/-- Regular short names that are shown alike are the same, and none is shown as a dot name. So the
entry of a slot with such a name is kept wherever the slot stands in a directory: it is listed, and
a tree has it among its files or its directories. -/
theorem regular_names_distinct {raw : RawSlot} (h : raw.IsRegular) :
    (∀ other : RawSlot, other.IsRegular →
      raw.entry.displayName = other.entry.displayName → raw.shortName = other.shortName) ∧
    ¬ IsDotName raw.entry.displayName ∧
    ∀ before rest : List RawSlot, (∀ slot ∈ before, ¬ slot.IsEnd) →
      let entries := Entry.ofBytes (Bytes.ofSlots (before ++ raw :: rest))
      ∃ entry, Describes before raw entry ∧ entry.shortName = raw.entry.displayName ∧
        entries = Entry.ofBytes (Bytes.ofSlots before) ++
          entry :: Entry.ofBytes (Bytes.ofSlots rest) ∧
        ¬ entry.isDot ∧ entry ∈ entries.filter (fun entry => !entry.isHidden) ∧
        if entry.isDirectory then entry ∈ Survey.dirsOf entries
        else ⟨entry.name, entry.size, entry.firstCluster⟩ ∈ Survey.filesOf entries := by
  refine ⟨fun other hother hshown => ?_, ?_, fun before rest hbefore => ?_⟩
  · rw [h.displayName_eq, hother.displayName_eq] at hshown
    exact h.shortName.eq_of_display_eq hother.shortName hshown
  · rw [h.displayName_eq]
    exact h.shortName.not_isDotName
  · intro entries
    have hends : ∀ slot ∈ before ++ [], ¬ slot.IsEnd := by
      rwa [List.append_nil]
    obtain ⟨entry, hdescribes, hdecoded⟩ :=
      exists_describes hends (List.forall_mem_nil _) h.isEntry rest
    rw [List.append_nil] at hdescribes hdecoded
    have hentries : entries = Entry.ofBytes (Bytes.ofSlots before) ++
        entry :: Entry.ofBytes (Bytes.ofSlots rest) := by
      rw [ofBytes_ofSlots, ofBytes_ofSlots, ← hdecoded]
      exact ofBytes_ofSlots (before ++ raw :: rest)
    have hname := hdescribes.shortName_eq_display h.isEntry h.not_label
    have hshown : entry.isHidden = false :=
      (hdescribes.isHidden_eq_false_iff h.isEntry).mpr ⟨h.not_label, h.shortName.not_isDotName⟩
    have hmem : entry ∈ entries := hentries ▸ List.mem_append_right _ List.mem_cons_self
    refine ⟨entry, hdescribes, hname.trans h.displayName_eq.symm, hentries, ?_, ?_, ?_⟩
    · rw [entry.isDot_iff, hname]
      exact h.shortName.not_isDotName
    · exact List.mem_filter.mpr ⟨hmem, by rw [hshown]; rfl⟩
    · split <;> rename_i hdirectory
      · exact List.mem_filter.mpr ⟨hmem, by simp [hshown, hdirectory]⟩
      · exact List.mem_map_of_mem (List.mem_filter.mpr ⟨hmem, by simp [hshown, hdirectory]⟩)

end Directory

namespace Specimen

def escapedFile : RawSlot := Bytes.fieldAt (slot 0x05 0x20 7 1) 0 32

def escapedDirectory : RawSlot := Bytes.fieldAt (slot 0x05 0x10 3 0) 0 32

/-- A file and a directory that are shown alike have the same name, and the file is kept. -/
theorem regular_names_distinct_escaped :
    escapedFile.entry.displayName = "\u00e5" ∧ escapedDirectory.entry.displayName = "\u00e5" ∧
      escapedFile.shortName = escapedDirectory.shortName ∧
      ∃ entry, entry.shortName = "\u00e5" ∧ ¬ entry.isDot ∧
        Entry.ofBytes (Bytes.ofSlots [escapedFile, escapedDirectory]) =
          entry :: Entry.ofBytes (Bytes.ofSlots [escapedDirectory]) := by
  have hfile : escapedFile.IsRegular := ⟨by decide, by decide, by decide +kernel⟩
  have hdirectory : escapedDirectory.IsRegular := ⟨by decide, by decide, by decide +kernel⟩
  have hshown : escapedFile.entry.displayName = "\u00e5" := by decide +kernel
  have hshownToo : escapedDirectory.entry.displayName = "\u00e5" := by decide +kernel
  obtain ⟨hsame, -, hkept⟩ := Directory.regular_names_distinct hfile
  obtain ⟨entry, -, hname, hentries, hdot, -⟩ :=
    hkept [] [escapedDirectory] (List.forall_mem_nil _)
  exact ⟨hshown, hshownToo, hsame escapedDirectory hdirectory (hshown.trans hshownToo.symm), entry,
    hname.trans hshown, hdot, hentries⟩

end Specimen

end Fat32
