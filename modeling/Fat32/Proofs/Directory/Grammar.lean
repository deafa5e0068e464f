import Fat32.Directory.Decoder
import Fat32.Proofs.Bytes
import Fat32.Proofs.Directory.Gathering
import Fat32.Proofs.Directory.Slots
import Mathlib.Data.List.Infix
import Mathlib.Data.List.TakeWhile

/-!
# The grammar of directories

What a directory says, told from its slots alone. Each slot of an entry before the end of the
directory makes one entry. Its name is a long one just when the slots right before it hold all
fragments of a name and carry its checksum; whatever stands elsewhere has no part in it. The
decoder, which only remembers the fragments that wait, finds the same entries.
-/

namespace Fat32

namespace Directory

/-- The slots, in the order stored, hold all fragments of one long name and carry `checksum`. -/
structure Spells (checksum : UInt8) (fragments : List RawSlot) : Prop where
  isFragment : ∀ raw ∈ fragments, raw.IsFragment
  length_le : fragments.length ≤ 20
  head : ∃ first ∈ fragments.head?, first.IsLast ∧ first.sequence = fragments.length
  tail : ∀ raw ∈ fragments.tail, ¬ raw.IsLast
  sequences : (fragments.tail.map RawSlot.sequence).Perm (List.range' 1 fragments.tail.length)
  checksum_eq : ∀ raw ∈ fragments, raw.byte 13 = checksum

def spelledUnits (fragments : List RawSlot) : List UInt16 :=
  (List.range' 1 fragments.length).flatMap fun place =>
    ((fragments.find? fun raw => raw.sequence = place).map RawSlot.units).getD []

def spelledText (fragments : List RawSlot) : String :=
  String.ofList (Text.Utf16.decodeLossy
    (((spelledUnits fragments).takeWhile (· != 0x0000)).filter (· != 0xFFFF)))

/-- After the slots `before`, the entry of `raw` has `text` as its long name. -/
def IsLongName (before : List RawSlot) (raw : RawSlot) (text : String) : Prop :=
  ∃ earlier fragments, before = earlier ++ fragments ∧
    Spells raw.shortName.checksum fragments ∧ spelledText fragments = text ∧ text ≠ ""

/-- The entry is the one that `raw` holds after the slots `before`. -/
structure Describes (before : List RawSlot) (raw : RawSlot) (entry : Entry) : Prop where
  attributes_eq : entry.attributes = ⟨raw.byte 11⟩
  toNat_size : entry.size.toNat = (raw.byte 28).toNat + 256 * ((raw.byte 29).toNat +
    256 * ((raw.byte 30).toNat + 256 * (raw.byte 31).toNat))
  toNat_firstCluster : entry.firstCluster.toNat =
    ((raw.byte 20).toNat + 256 * (raw.byte 21).toNat) * 65536 +
      ((raw.byte 26).toNat + 256 * (raw.byte 27).toNat)
  shortName_eq : entry.shortName = if entry.isVolumeLabel then raw.shortName.displayLabel
    else raw.shortName.display
  name_eq_of_isLongName : ∀ text, IsLongName before raw text → entry.name = text
  name_eq_shortName : (∀ text, ¬ IsLongName before raw text) → entry.name = entry.shortName

def entrySlots (slots : List RawSlot) : List (List RawSlot × RawSlot) :=
  let listed := slots.takeWhile fun raw => ¬ raw.IsEnd
  (listed.inits.zip listed).filter fun position => position.2.IsEntry

/-! ## What waits after some slots -/

def waiting (pending : Option PartialName) (raw : RawSlot) : Option PartialName :=
  if raw.IsFragment then
    if raw.IsLast then PartialName.open? raw.fragment
    else pending.bind (·.place? raw.fragment)
  else none

theorem step_next {decoder : Decoder} {raw : RawSlot} (h : ¬ raw.IsEnd) :
    (decoder.step (.ofRaw raw)).next = ⟨waiting decoder.pending raw, false⟩ := by
  rcases raw.kind_cases with hend | hdeleted | hfragment | hentry
  · exact absurd hend h
  · have hother : ¬ raw.IsFragment := fun hfragment => hfragment.2.1 hdeleted
    rw [RawSlot.ofRaw_of_isDeleted hdeleted, waiting, if_neg hother]
    rfl
  · rw [RawSlot.ofRaw_of_isFragment hfragment, waiting, if_pos hfragment]
    simp only [Decoder.step, Decoder.stepFragment, raw.isLast_fragment]
    by_cases hlast : raw.IsLast
    · rw [if_pos hlast, if_pos hlast]
      cases PartialName.open? raw.fragment <;> rfl
    · rw [if_neg hlast, if_neg hlast]
      cases decoder.pending.bind (·.place? raw.fragment) <;> rfl
  · have hother : ¬ raw.IsFragment := fun hfragment => hentry.2.2 hfragment.2.2
    rw [RawSlot.ofRaw_of_isEntry hentry, waiting, if_neg hother]
    rfl

theorem step_entry {decoder : Decoder} {raw : RawSlot} :
    (decoder.step (.ofRaw raw)).entry.toList =
      if raw.IsEntry then [raw.entry.named (decoder.nameFor raw.entry).1] else [] := by
  rcases raw.kind_cases with hend | hdeleted | hfragment | hentry
  · rw [RawSlot.ofRaw_of_isEnd hend, if_neg fun hentry => hentry.1 hend]
    rfl
  · rw [RawSlot.ofRaw_of_isDeleted hdeleted, if_neg fun hentry => hentry.2.1 hdeleted]
    rfl
  · rw [RawSlot.ofRaw_of_isFragment hfragment, if_neg fun hentry => hentry.2.2 hfragment.2.2]
    simp only [Decoder.step, Decoder.stepFragment]
    split
    · cases PartialName.open? raw.fragment <;> rfl
    · cases decoder.pending.bind (·.place? raw.fragment) <;> rfl
  · rw [RawSlot.ofRaw_of_isEntry hentry, if_pos hentry]
    rfl

/-- The slots, in the order stored, are the fragments of one long name as far as they have come. -/
def Gathers (fragments : List RawSlot) (name : PartialName) : Prop :=
  ∃ first rest, fragments = first :: rest ∧ (first.IsFragment ∧ first.IsLast) ∧
    (∀ raw ∈ rest, raw.IsFragment ∧ ¬ raw.IsLast) ∧
    PartialName.gather first.fragment (rest.map RawSlot.fragment) = some name

theorem not_gathers_nil (name : PartialName) : ¬ Gathers [] name := by
  rintro ⟨first, rest, h, -⟩
  contradiction

theorem Gathers.isFragment {fragments : List RawSlot} {name : PartialName}
    (h : Gathers fragments name) : ∀ raw ∈ fragments, raw.IsFragment := by
  obtain ⟨first, rest, rfl, hfirst, hrest, -⟩ := h
  exact List.forall_mem_cons.mpr ⟨hfirst.1, fun raw hraw => (hrest raw hraw).1⟩

/-- The last of the fragments opens the name, or it takes its place among those before it. -/
theorem gathers_concat_iff {fragments : List RawSlot} {raw : RawSlot} {name : PartialName} :
    Gathers (fragments ++ [raw]) name ↔ raw.IsFragment ∧
      (fragments = [] ∧ raw.IsLast ∧ PartialName.open? raw.fragment = some name ∨
        ¬ raw.IsLast ∧ ∃ before, Gathers fragments before ∧
          before.place? raw.fragment = some name) := by
  constructor
  · rintro ⟨first, rest, hslots, hfirst, hrest, hgather⟩
    rcases rest.eq_nil_or_concat with rfl | ⟨others, last, rfl⟩
    · obtain ⟨rfl, hraw⟩ := List.append_inj' (hslots.trans (List.nil_append [first]).symm) rfl
      obtain rfl : raw = first := by simpa using hraw
      exact ⟨hfirst.1, .inl ⟨rfl, hfirst.2, by simpa [PartialName.gather] using hgather⟩⟩
    · rw [List.concat_eq_append] at hslots hrest hgather
      obtain ⟨rfl, hraw⟩ := List.append_inj' (hslots.trans List.cons_append.symm) rfl
      obtain rfl : raw = last := by simpa using hraw
      obtain ⟨hfragment, hlast⟩ := hrest raw (by simp)
      rw [List.map_append, List.map_singleton, PartialName.gather_concat] at hgather
      obtain ⟨before, hbefore, hplace⟩ := Option.bind_eq_some_iff.mp hgather
      have hothers : Gathers (first :: others) before :=
        ⟨first, others, rfl, hfirst, fun other hother => hrest other (by simp [hother]), hbefore⟩
      exact ⟨hfragment, .inr ⟨hlast, before, hothers, hplace⟩⟩
  · rintro ⟨hfragment, ⟨rfl, hlast, hopen⟩ | ⟨hlast, before, hbefore, hplace⟩⟩
    · exact ⟨raw, [], rfl, ⟨hfragment, hlast⟩, by simp, by simpa [PartialName.gather]⟩
    · obtain ⟨first, rest, rfl, hfirst, hrest, hgather⟩ := hbefore
      refine ⟨first, rest ++ [raw], List.cons_append, hfirst, ?_, ?_⟩
      · exact List.forall_mem_append.mpr ⟨hrest, by simp [hfragment, hlast]⟩
      · rw [List.map_append, List.map_singleton, PartialName.gather_concat, hgather]
        exact hplace

theorem foldl_waiting_eq_some_iff {slots : List RawSlot} {name : PartialName} :
    slots.foldl waiting none = some name ↔
      ∃ earlier fragments, slots = earlier ++ fragments ∧ Gathers fragments name := by
  -- on the last slot: it opens a name, joins the one that waits, or leaves none
  induction slots using List.reverseRecOn generalizing name with
  | nil =>
      simp only [List.foldl_nil, List.nil_eq, List.append_eq_nil_iff, reduceCtorEq, false_iff]
      rintro ⟨earlier, fragments, ⟨rfl, rfl⟩, hgathers⟩
      exact not_gathers_nil name hgathers
  | append_singleton slots raw ih =>
      rw [List.foldl_append, List.foldl_cons, List.foldl_nil, waiting]
      constructor
      · intro h
        split at h <;> rename_i hfragment
        · split at h <;> rename_i hlast
          · exact ⟨slots, [raw], rfl,
              (@gathers_concat_iff [] raw name).mpr ⟨hfragment, .inl ⟨rfl, hlast, h⟩⟩⟩
          · obtain ⟨before, hbefore, hplace⟩ := Option.bind_eq_some_iff.mp h
            obtain ⟨earlier, fragments, rfl, hgathers⟩ := ih.mp hbefore
            exact ⟨earlier, fragments ++ [raw], List.append_assoc .., gathers_concat_iff.mpr
              ⟨hfragment, .inr ⟨hlast, before, hgathers, hplace⟩⟩⟩
        · contradiction
      · rintro ⟨earlier, fragments, hslots, hgathers⟩
        rcases fragments.eq_nil_or_concat with rfl | ⟨others, last, rfl⟩
        · exact absurd hgathers (not_gathers_nil name)
        · rw [List.concat_eq_append] at hslots hgathers
          obtain ⟨rfl, hraw⟩ :=
            List.append_inj' (hslots.trans (List.append_assoc ..).symm) rfl
          obtain rfl : raw = last := by simpa using hraw
          obtain ⟨hfragment, ⟨rfl, hlast, hopen⟩ | ⟨hlast, before, hothers, hplace⟩⟩ :=
            gathers_concat_iff.mp hgathers
          · rw [if_pos hfragment, if_pos hlast]
            exact hopen
          · rw [if_pos hfragment, if_neg hlast, ih.mpr ⟨earlier, others, rfl, hothers⟩]
            exact hplace

/-! ## Long names -/

theorem map_sequence_fragment (slots : List RawSlot) :
    (slots.map RawSlot.fragment).map Fragment.sequence = slots.map RawSlot.sequence := by
  rw [List.map_map]
  exact List.map_congr_left fun raw _ => raw.sequence_fragment

theorem isComplete_of_gather {first : RawSlot} {rest : List RawSlot} {name : PartialName}
    (h : PartialName.gather first.fragment (rest.map RawSlot.fragment) = some name) :
    name.isComplete = true ↔ first.sequence = rest.length + 1 ∧
      (rest.map RawSlot.sequence).Perm (List.range' 1 rest.length) := by
  obtain ⟨hfits, rfl⟩ := PartialName.gather_eq_some_iff.mp h
  rw [hfits.isComplete_iff, map_sequence_fragment, List.length_map, first.sequence_fragment]

namespace Spells

variable {checksum : UInt8} {first : RawSlot} {rest : List RawSlot}

theorem first_spec (h : Spells checksum (first :: rest)) :
    first.IsLast ∧ first.sequence = rest.length + 1 := by
  obtain ⟨raw, hraw, hlast, hlength⟩ := h.head
  obtain rfl : first = raw := by simpa using hraw
  exact ⟨hlast, hlength⟩

theorem fits (h : Spells checksum (first :: rest)) :
    PartialName.Fits first.fragment (rest.map RawSlot.fragment) := by
  apply PartialName.fits_of_perm
  · rw [first.sequence_fragment, h.first_spec.2, List.length_map]
  · have hlength := h.length_le
    rw [List.length_cons] at hlength
    rw [List.length_map, PartialName.maxFragments]
    omega
  · intro f hf
    obtain ⟨raw, hraw, rfl⟩ := List.mem_map.mp hf
    rw [raw.checksum_fragment, first.checksum_fragment, h.checksum_eq raw (by simp [hraw]),
      h.checksum_eq first (by simp)]
  · rw [map_sequence_fragment, List.length_map]
    exact h.sequences

end Spells

theorem spells_iff {checksum : UInt8} {fragments : List RawSlot} :
    Spells checksum fragments ↔
      ∃ name, Gathers fragments name ∧ name.isComplete = true ∧ name.checksum = checksum := by
  constructor
  · intro h
    cases fragments with
    | nil =>
        obtain ⟨_, hhead, -⟩ := h.head
        simp at hhead
    | cons first rest =>
        obtain ⟨hlast, hlength⟩ := h.first_spec
        have hgather := PartialName.gather_eq_some_iff.mpr ⟨h.fits, rfl⟩
        refine ⟨_, ⟨first, rest, rfl, ⟨h.isFragment first (by simp), hlast⟩, ?_, hgather⟩, ?_, ?_⟩
        · exact fun raw hraw => ⟨h.isFragment raw (by simp [hraw]), h.tail raw hraw⟩
        · exact (isComplete_of_gather hgather).mpr ⟨hlength, h.sequences⟩
        · exact first.checksum_fragment.trans (h.checksum_eq first (by simp))
  · rintro ⟨name, ⟨first, rest, rfl, ⟨hfirst, hlast⟩, hrest, hgather⟩, hall, hchecksum⟩
    obtain ⟨hlength, hperm⟩ := (isComplete_of_gather hgather).mp hall
    obtain ⟨hfits, rfl⟩ := PartialName.gather_eq_some_iff.mp hgather
    refine ⟨?_, ?_, ⟨first, rfl, hlast, hlength⟩, fun raw hraw => (hrest raw hraw).2, hperm, ?_⟩
    · intro raw hraw
      rcases List.mem_cons.mp hraw with rfl | hraw
      · exact hfirst
      · exact (hrest raw hraw).1
    · have := hfits.opens
      rw [first.sequence_fragment, PartialName.maxFragments] at this
      rw [List.length_cons]
      omega
    · intro raw hraw
      have hown : first.byte 13 = checksum := first.checksum_fragment.symm.trans hchecksum
      rcases List.mem_cons.mp hraw with rfl | hraw
      · exact hown
      · have := hfits.checksum_eq raw.fragment (List.mem_map_of_mem hraw)
        rw [raw.checksum_fragment, first.checksum_fragment] at this
        rw [this, hown]

theorem Gathers.text_eq {fragments : List RawSlot} {name : PartialName}
    (h : Gathers fragments name) (hall : name.isComplete = true) :
    name.text = spelledText fragments := by
  obtain ⟨first, rest, rfl, -, -, hgather⟩ := h
  have hlength := ((isComplete_of_gather hgather).mp hall).1
  have hunits : name.units = spelledUnits (first :: rest) := by
    obtain ⟨-, rfl⟩ := PartialName.gather_eq_some_iff.mp hgather
    rw [PartialName.units, PartialName.arrange, first.sequence_fragment, hlength,
      List.flatMap_map, spelledUnits, List.length_cons]
    apply List.flatMap_congr
    intro place _
    have hfind : (first.fragment :: rest.map RawSlot.fragment).find?
        (fun f => decide (f.sequence = place)) =
          ((first :: rest).find? fun raw => raw.sequence = place).map RawSlot.fragment := by
      rw [← List.map_cons, List.find?_map]
      simp only [Function.comp_def, RawSlot.sequence_fragment]
    rw [hfind]
    cases (first :: rest).find? fun raw => decide (raw.sequence = place) with
    | none => rfl
    | some raw => exact raw.units_fragment
  rw [PartialName.text, PartialName.textUnits, hunits, spelledText]

theorem Spells.exists_waiting {checksum : UInt8} {fragments : List RawSlot}
    (h : Spells checksum fragments) (earlier : List RawSlot) :
    ∃ name, (earlier ++ fragments).foldl waiting none = some name ∧ name.isComplete = true ∧
      name.checksum = checksum ∧ name.text = spelledText fragments := by
  obtain ⟨name, hgathers, hall, hchecksum⟩ := spells_iff.mp h
  have hwaiting := foldl_waiting_eq_some_iff.mpr ⟨earlier, fragments, rfl, hgathers⟩
  exact ⟨name, hwaiting, hall, hchecksum, hgathers.text_eq hall⟩

/-- The slots before an entry give it a long name just when the name that waits is complete. -/
theorem isLongName_iff {before : List RawSlot} {raw : RawSlot} {text : String} :
    IsLongName before raw text ↔ ∃ name, before.foldl waiting none = some name ∧
      name.isComplete = true ∧ name.checksum = raw.shortName.checksum ∧
      name.text = text ∧ text ≠ "" := by
  constructor
  · rintro ⟨earlier, fragments, rfl, hspells, htext, hempty⟩
    obtain ⟨name, hwaiting, hall, hchecksum, hname⟩ := hspells.exists_waiting earlier
    exact ⟨name, hwaiting, hall, hchecksum, hname.trans htext, hempty⟩
  · rintro ⟨name, hwaiting, hall, hchecksum, htext, hempty⟩
    obtain ⟨earlier, fragments, rfl, hgathers⟩ := foldl_waiting_eq_some_iff.mp hwaiting
    have hspells := spells_iff.mpr ⟨name, hgathers, hall, hchecksum⟩
    exact ⟨earlier, fragments, rfl, hspells, (hgathers.text_eq hall).symm.trans htext, hempty⟩

/-! ## Runs of the decoder -/

abbrev decoded (slots : List RawSlot) : Decoded := Decoder.initial.decodeSlots slots

theorem decoded_concat {slots : List RawSlot} {raw : RawSlot}
    (h : (decoded slots).decoder.finished = false) :
    decoded (slots ++ [raw]) =
      ⟨((decoded slots).decoder.step (.ofRaw raw)).next,
        (decoded slots).entries ++ ((decoded slots).decoder.step (.ofRaw raw)).entry.toList,
        (decoded slots).events ++ ((decoded slots).decoder.step (.ofRaw raw)).events⟩ := by
  have hfold : decoded (slots ++ [raw]) = Decoder.feed (decoded slots) raw := by
    simp [decoded, Decoder.decodeSlots]
  rw [hfold, Decoder.feed, if_neg (by simp [h])]

theorem foldl_feed_of_finished {done : Decoded} (h : done.decoder.finished = true)
    (slots : List RawSlot) : slots.foldl Decoder.feed done = done := by
  induction slots with
  | nil => rfl
  | cons raw slots ih => rw [List.foldl_cons, Decoder.feed, if_pos h, ih]

theorem decoder_decoded {slots : List RawSlot} (h : ∀ raw ∈ slots, ¬ raw.IsEnd) :
    (decoded slots).decoder = ⟨slots.foldl waiting none, false⟩ := by
  induction slots using List.reverseRecOn with
  | nil => rfl
  | append_singleton slots raw ih =>
      have hslots := ih fun raw hraw => h raw (by simp [hraw])
      rw [decoded_concat (by rw [hslots]), step_next (h raw (by simp)), hslots, List.foldl_append]
      rfl

theorem entries_decoded (slots : List RawSlot) :
    (decoded slots).entries = (decoded (slots.takeWhile fun raw => ¬ raw.IsEnd)).entries := by
  generalize hlisted : slots.takeWhile (fun raw => ¬ raw.IsEnd) = listed
  have hends : ∀ raw ∈ listed, ¬ raw.IsEnd := by
    intro raw hraw
    rw [← hlisted] at hraw
    simpa using List.mem_takeWhile_imp hraw
  have hsplit : slots = listed ++ slots.dropWhile fun raw => ¬ raw.IsEnd := by
    rw [← hlisted, List.takeWhile_append_dropWhile]
  cases hrest : slots.dropWhile (fun raw => ¬ raw.IsEnd) with
  | nil => rw [hsplit, hrest, List.append_nil]
  | cons raw rest =>
      have hend : raw.IsEnd := by
        have hhead := List.head_dropWhile_not (fun raw : RawSlot => decide ¬ raw.IsEnd)
          (l := slots) (by rw [hrest]; exact List.cons_ne_nil raw rest)
        simp only [hrest, List.head_cons] at hhead
        simpa using hhead
      have hfinished : (decoded (listed ++ [raw])).decoder.finished = true := by
        rw [decoded_concat (by rw [decoder_decoded hends]), RawSlot.ofRaw_of_isEnd hend]
        rfl
      have hfold : decoded (listed ++ raw :: rest) = decoded (listed ++ [raw]) := by
        have := foldl_feed_of_finished hfinished rest
        simpa [decoded, Decoder.decodeSlots] using this
      rw [hsplit, hrest, hfold, decoded_concat (by rw [decoder_decoded hends]),
        RawSlot.ofRaw_of_isEnd hend]
      simp [Decoder.step]

theorem entries_concat {slots : List RawSlot} {raw : RawSlot}
    (h : ∀ raw ∈ slots, ¬ raw.IsEnd) :
    (decoded (slots ++ [raw])).entries.toList = (decoded slots).entries.toList ++
      if raw.IsEntry then [raw.entry.named ((decoded slots).decoder.nameFor raw.entry).1]
      else [] := by
  rw [decoded_concat (by rw [decoder_decoded h]), ← step_entry]
  simp

/-! ## Entries -/

theorem toNat_size (raw : RawSlot) : raw.entry.size.toNat =
    (raw.byte 28).toNat + 256 * ((raw.byte 29).toNat +
      256 * ((raw.byte 30).toNat + 256 * (raw.byte 31).toNat)) := by
  rw [show raw.entry.size = Bytes.u32At raw.toList 28 from rfl, Bytes.toNat_u32At]
  simp only [Bytes.valueAt, RawSlot.byte, Nat.reduceAdd, Nat.mul_zero, Nat.add_zero]

theorem toNat_firstCluster (raw : RawSlot) : raw.entry.firstCluster.toNat =
    ((raw.byte 20).toNat + 256 * (raw.byte 21).toNat) * 65536 +
      ((raw.byte 26).toNat + 256 * (raw.byte 27).toNat) := by
  have hvalue : raw.entry.firstCluster =
      .ofNat (((raw.byte 20).toNat + 256 * (raw.byte 21).toNat) * 65536 +
        ((raw.byte 26).toNat + 256 * (raw.byte 27).toNat)) := by
    simp only [ShortEntry.ofBytes, Bytes.valueAt, RawSlot.byte, Nat.reduceAdd, Nat.mul_zero,
      Nat.add_zero]
  rw [hvalue, UInt32.toNat_ofNat']
  have := (raw.byte 20).toNat_lt
  have := (raw.byte 21).toNat_lt
  have := (raw.byte 26).toNat_lt
  have := (raw.byte 27).toNat_lt
  omega

theorem describes_entry {before : List RawSlot} {raw : RawSlot}
    (h : ∀ other ∈ before, ¬ other.IsEnd) :
    Describes before raw
      (raw.entry.named ((decoded before).decoder.nameFor raw.entry).1) := by
  rw [decoder_decoded h]
  constructor
  · rfl
  · exact toNat_size raw
  · exact toNat_firstCluster raw
  · rw [← raw.name_entry]
    rfl
  · intro text htext
    obtain ⟨name, hwaiting, hall, hchecksum, rfl, hempty⟩ := isLongName_iff.mp htext
    simp [ShortEntry.named, Decoder.nameFor, hwaiting, hall, hchecksum, hempty, raw.name_entry]
  · intro hnone
    simp only [ShortEntry.named, Decoder.nameFor]
    cases hwaiting : before.foldl waiting none with
    | none => rfl
    | some name =>
        rw [raw.name_entry]
        cases hall : name.isComplete with
        | false => simp [hall]
        | true =>
            by_cases hchecksum : name.checksum = raw.shortName.checksum
            · by_cases hempty : name.text = ""
              · simp [hall, hchecksum, hempty]
              · have hlong := isLongName_iff.mpr ⟨name, hwaiting, hall, hchecksum, rfl, hempty⟩
                exact absurd hlong (hnone name.text)
            · simp [hall, hchecksum]

theorem zip_inits_concat {α : Type} (items : List α) (item : α) :
    (items ++ [item]).inits.zip (items ++ [item]) = items.inits.zip items ++ [(items, item)] := by
  induction items with
  | nil => rfl
  | cons first items ih =>
      simp only [List.cons_append, List.inits_cons, List.zip_cons_cons, List.zip_map_left, ih,
        List.map_append]
      rfl

theorem entries_listed {slots : List RawSlot} (h : ∀ raw ∈ slots, ¬ raw.IsEnd) :
    List.Forall₂ (fun position entry => Describes position.1 position.2 entry)
      ((slots.inits.zip slots).filter fun position => position.2.IsEntry)
      (decoded slots).entries.toList := by
  induction slots using List.reverseRecOn with
  | nil => exact .nil
  | append_singleton slots raw ih =>
      have hslots : ∀ other ∈ slots, ¬ other.IsEnd := fun other hother => h other (by simp [hother])
      rw [zip_inits_concat, List.filter_append, entries_concat hslots]
      refine List.rel_append (ih hslots) ?_
      split <;> rename_i hentry
      · rw [List.filter_cons_of_pos (by simpa using hentry)]
        exact .cons (describes_entry hslots) .nil
      · rw [List.filter_cons_of_neg (by simpa using hentry)]
        exact .nil

/-- The entries of a directory are those of its entry slots, one for each and in their order. -/
theorem entries_ofSlots (slots : List RawSlot) :
    List.Forall₂ (fun position entry => Describes position.1 position.2 entry)
      (entrySlots slots) (Entry.ofBytes (Bytes.ofSlots slots)) := by
  have hslots : (Bytes.ofSlots slots).slots = slots := by
    simpa [Bytes.slots_of_length_lt] using Bytes.slots_ofSlots slots []
  have hentries : Entry.ofBytes (Bytes.ofSlots slots) =
      (decoded (slots.takeWhile fun raw => ¬ raw.IsEnd)).entries.toList := by
    rw [Entry.ofBytes, Decoder.decode, hslots, ← entries_decoded]
  rw [hentries]
  exact entries_listed fun raw hraw => by simpa using List.mem_takeWhile_imp hraw

end Directory

end Fat32
