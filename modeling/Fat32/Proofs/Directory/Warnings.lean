import Fat32.Proofs.Directory.Checksum

/-!
# Warnings about long names

What a decoder that does not warn has read. Between two entries without a warning there are at most
deleted slots and, after them, all fragments of one long name that carry the checksum of the second
entry. Whatever else stands there is given up with a warning. Fragments whose text is empty are the
exception: the entry goes by its short name, and nothing is said about it.
-/

namespace Fat32

def Unwarned (events : List Event) : Prop := ∀ event ∈ events, event.level ≠ .warn

namespace Unwarned

theorem nil : Unwarned [] := List.forall_mem_nil _

theorem append_iff {events others : List Event} :
    Unwarned (events ++ others) ↔ Unwarned events ∧ Unwarned others :=
  List.forall_mem_append

theorem singleton_iff {event : Event} : Unwarned [event] ↔ event.level ≠ .warn :=
  List.forall_mem_singleton

end Unwarned

namespace Directory

/-! ## One slot -/

section

variable {pending : Option PartialName} {raw : RawSlot}

theorem unwarned_orphaned_iff {finished : Bool} {why : Orphaning} :
    Unwarned (Decoder.orphaned ⟨pending, finished⟩ why) ↔ pending = none := by
  cases pending with
  | none => simp [Decoder.orphaned, Unwarned]
  | some name => simp [Decoder.orphaned, Unwarned, Event.level]

theorem unwarned_deleted_iff (h : raw.IsDeleted) :
    Unwarned (Decoder.step ⟨pending, false⟩ (.ofRaw raw)).events ↔ pending = none := by
  rw [RawSlot.ofRaw_of_isDeleted h]
  exact unwarned_orphaned_iff

/-- A fragment is taken without a warning if a name waits after it, unless it takes the place of
one that waited before. -/
theorem unwarned_fragment_iff (h : raw.IsFragment) :
    Unwarned (Decoder.step ⟨pending, false⟩ (.ofRaw raw)).events ↔
      (∃ name, waiting pending raw = some name) ∧ (raw.IsLast → pending = none) := by
  rw [RawSlot.ofRaw_of_isFragment h, waiting, if_pos h]
  simp only [Decoder.step, Decoder.stepFragment, raw.isLast_fragment]
  by_cases hlast : raw.IsLast
  · rw [if_pos hlast, if_pos hlast]
    cases PartialName.open? raw.fragment with
    | none => simp [Unwarned.append_iff, Unwarned.singleton_iff, Event.level]
    | some name => simp [unwarned_orphaned_iff, hlast]
  · rw [if_neg hlast, if_neg hlast]
    cases pending.bind (·.place? raw.fragment) with
    | none => simp [Unwarned.singleton_iff, Event.level]
    | some name => simp [Unwarned.nil, hlast]

theorem unwarned_entry_iff (h : raw.IsEntry) :
    Unwarned (Decoder.step ⟨pending, false⟩ (.ofRaw raw)).events ↔
      ∀ name ∈ pending, name.isComplete = true ∧ name.checksum = raw.shortName.checksum := by
  rw [RawSlot.ofRaw_of_isEntry h, ← raw.name_entry]
  simp only [Decoder.step, Decoder.stepShort, Unwarned.append_iff, Unwarned.singleton_iff]
  cases pending with
  | none => simp [Decoder.nameFor, Unwarned.nil, Event.level]
  | some name =>
      cases hall : name.isComplete with
      | false => simp [Decoder.nameFor, hall, Unwarned.singleton_iff, Event.level]
      | true =>
          by_cases hchecksum : name.checksum = raw.entry.name.checksum
          · by_cases hempty : name.text = "" <;>
              simp [Decoder.nameFor, hall, hchecksum, hempty, Unwarned.nil, Event.level]
          · simp [Decoder.nameFor, hall, hchecksum, Unwarned.singleton_iff, Event.level]

end

/-! ## Slots between entries -/

theorem settled_of_deleted {slots : List RawSlot} (h : ∀ raw ∈ slots, raw.IsDeleted) :
    Settled slots :=
  fun raw hraw hfragment => hfragment.2.1 (h raw (List.mem_of_getLast? hraw))

theorem unwarned_concat_iff {slots : List RawSlot} {raw : RawSlot}
    (hends : ∀ slot ∈ slots, ¬ slot.IsEnd) :
    Unwarned (decoded (slots ++ [raw])).events.toList ↔ Unwarned (decoded slots).events.toList ∧
      Unwarned (Decoder.step ⟨slots.foldl waiting none, false⟩ (.ofRaw raw)).events := by
  rw [decoded_concat (by rw [decoder_decoded hends]), decoder_decoded hends,
    ← Unwarned.append_iff]
  simp

/-- Deleted slots, and after them the fragments of at most one long name, as far as they have
come. -/
def Calm (slots : List RawSlot) : Prop :=
  ∃ deleted fragments, slots = deleted ++ fragments ∧ (∀ raw ∈ deleted, raw.IsDeleted) ∧
    (fragments = [] ∨ ∃ name, Gathers fragments name)

theorem waiting_of_calm {deleted fragments : List RawSlot}
    (hdeleted : ∀ raw ∈ deleted, raw.IsDeleted)
    (hfragments : fragments = [] ∨ ∃ name, Gathers fragments name) :
    (fragments = [] ∧ (deleted ++ fragments).foldl waiting none = none) ∨
      ∃ name, Gathers fragments name ∧ (deleted ++ fragments).foldl waiting none = some name := by
  rcases hfragments with rfl | ⟨name, hname⟩
  · refine .inl ⟨rfl, ?_⟩
    rw [List.append_nil]
    exact (settled_of_deleted hdeleted).foldl_waiting_eq
  · exact .inr ⟨name, hname, foldl_waiting_eq_some_iff.mpr ⟨deleted, fragments, rfl, hname⟩⟩

theorem calm_of_unwarned {slots : List RawSlot}
    (hslots : ∀ raw ∈ slots, ¬ raw.IsEnd ∧ ¬ raw.IsEntry)
    (h : Unwarned (decoded slots).events.toList) : Calm slots := by
  induction slots using List.reverseRecOn with
  | nil => exact ⟨[], [], rfl, List.forall_mem_nil _, .inl rfl⟩
  | append_singleton slots raw ih =>
      obtain ⟨hbefore, hraw⟩ := List.forall_mem_append.mp hslots
      obtain ⟨hend, hentry⟩ := hraw raw (List.mem_singleton_self raw)
      obtain ⟨hunwarned, hstep⟩ :=
        (unwarned_concat_iff fun slot hslot => (hbefore slot hslot).1).mp h
      obtain ⟨deleted, fragments, rfl, hdeleted, hfragments⟩ := ih hbefore hunwarned
      have hwaiting := waiting_of_calm hdeleted hfragments
      rcases raw.kind_cases with hkind | hkind | hkind | hkind
      · exact absurd hkind hend
      · -- nothing may wait before a deleted slot
        rw [unwarned_deleted_iff hkind] at hstep
        rcases hwaiting with ⟨rfl, -⟩ | ⟨name, -, hname⟩
        · refine ⟨deleted ++ [raw], [], by simp, ?_, .inl rfl⟩
          exact List.forall_mem_append.mpr ⟨hdeleted, List.forall_mem_singleton.mpr hkind⟩
        · rw [hstep] at hname
          contradiction
      · obtain ⟨⟨next, hnext⟩, hfirst⟩ := (unwarned_fragment_iff hkind).mp hstep
        rw [waiting, if_pos hkind] at hnext
        refine ⟨deleted, fragments ++ [raw], List.append_assoc .., hdeleted, .inr ⟨next, ?_⟩⟩
        rw [gathers_concat_iff]
        refine ⟨hkind, ?_⟩
        by_cases hlast : raw.IsLast
        · -- nor before the fragment that opens a name
          rw [if_pos hlast] at hnext
          rcases hwaiting with ⟨rfl, -⟩ | ⟨name, -, hname⟩
          · exact .inl ⟨rfl, hlast, hnext⟩
          · rw [hfirst hlast] at hname
            contradiction
        · rw [if_neg hlast] at hnext
          obtain ⟨name, hname, hplace⟩ := Option.bind_eq_some_iff.mp hnext
          rcases hwaiting with ⟨rfl, hnone⟩ | ⟨other, hother, hsome⟩
          · rw [hnone] at hname
            contradiction
          · obtain rfl := Option.some.inj (hsome.symm.trans hname)
            exact .inr ⟨hlast, other, hother, hplace⟩
      · exact absurd hkind hentry

theorem unwarned_of_deleted {slots : List RawSlot} (h : ∀ raw ∈ slots, raw.IsDeleted) :
    Unwarned (decoded slots).events.toList := by
  induction slots using List.reverseRecOn with
  | nil => exact .nil
  | append_singleton slots raw ih =>
      obtain ⟨hslots, hraw⟩ := List.forall_mem_append.mp h
      have hends : ∀ slot ∈ slots, ¬ slot.IsEnd := fun slot hslot => (hslots slot hslot).not_isEnd
      rw [unwarned_concat_iff hends, unwarned_deleted_iff (hraw raw (by simp))]
      exact ⟨ih hslots, (settled_of_deleted hslots).foldl_waiting_eq⟩

theorem unwarned_of_gathers {deleted fragments : List RawSlot} {name : PartialName}
    (hdeleted : ∀ raw ∈ deleted, raw.IsDeleted) (h : Gathers fragments name) :
    Unwarned (decoded (deleted ++ fragments)).events.toList := by
  induction fragments using List.reverseRecOn generalizing name with
  | nil => exact absurd h (not_gathers_nil name)
  | append_singleton fragments raw ih =>
      have hends : ∀ slot ∈ deleted ++ fragments, ¬ slot.IsEnd :=
        List.forall_mem_append.mpr ⟨fun slot hslot => (hdeleted slot hslot).not_isEnd,
          fun slot hslot => (h.isFragment slot (by simp [hslot])).1⟩
      obtain ⟨hfragment, hplaced⟩ := gathers_concat_iff.mp h
      rw [← List.append_assoc, unwarned_concat_iff hends, unwarned_fragment_iff hfragment, waiting,
        if_pos hfragment]
      rcases hplaced with ⟨rfl, hlast, hopen⟩ | ⟨hlast, before, hbefore, hplace⟩
      · rw [List.append_nil, if_pos hlast]
        exact ⟨unwarned_of_deleted hdeleted, ⟨name, hopen⟩,
          fun _ => (settled_of_deleted hdeleted).foldl_waiting_eq⟩
      · rw [if_neg hlast, foldl_waiting_eq_some_iff.mpr ⟨deleted, fragments, rfl, hbefore⟩]
        exact ⟨ih hbefore, ⟨name, hplace⟩, fun h => absurd h hlast⟩

/-- Slots without an entry are read without a warning just when they are calm. -/
theorem unwarned_iff_calm {slots : List RawSlot}
    (hslots : ∀ raw ∈ slots, ¬ raw.IsEnd ∧ ¬ raw.IsEntry) :
    Unwarned (decoded slots).events.toList ↔ Calm slots := by
  refine ⟨calm_of_unwarned hslots, ?_⟩
  rintro ⟨deleted, fragments, rfl, hdeleted, rfl | ⟨name, hname⟩⟩
  · rw [List.append_nil]
    exact unwarned_of_deleted hdeleted
  · exact unwarned_of_gathers hdeleted hname

/-! ## Up to an entry -/

theorem unwarned_iff {between : List RawSlot} {raw : RawSlot}
    (hbetween : ∀ slot ∈ between, ¬ slot.IsEnd ∧ ¬ slot.IsEntry) (hraw : raw.IsEntry) :
    Unwarned (decoded (between ++ [raw])).events.toList ↔
      ∃ deleted fragments, between = deleted ++ fragments ∧
        (∀ slot ∈ deleted, slot.IsDeleted) ∧
        (fragments = [] ∨ Spells raw.shortName.checksum fragments) := by
  rw [unwarned_concat_iff fun slot hslot => (hbetween slot hslot).1, unwarned_iff_calm hbetween,
    unwarned_entry_iff hraw]
  constructor
  · rintro ⟨⟨deleted, fragments, rfl, hdeleted, hfragments⟩, hname⟩
    refine ⟨deleted, fragments, rfl, hdeleted, ?_⟩
    rcases waiting_of_calm hdeleted hfragments with ⟨rfl, -⟩ | ⟨name, hgathers, hwaiting⟩
    · exact .inl rfl
    · obtain ⟨hall, hchecksum⟩ := hname name hwaiting
      exact .inr (spells_iff.mpr ⟨name, hgathers, hall, hchecksum⟩)
  · rintro ⟨deleted, fragments, rfl, hdeleted, rfl | hspells⟩
    · refine ⟨⟨deleted, [], rfl, hdeleted, .inl rfl⟩, ?_⟩
      rw [List.append_nil, (settled_of_deleted hdeleted).foldl_waiting_eq]
      simp
    · obtain ⟨name, hgathers, hall, hchecksum⟩ := spells_iff.mp hspells
      refine ⟨⟨deleted, fragments, rfl, hdeleted, .inr ⟨name, hgathers⟩⟩, ?_⟩
      rw [foldl_waiting_eq_some_iff.mpr ⟨deleted, fragments, rfl, hgathers⟩]
      rintro _ ⟨⟩
      exact ⟨hall, hchecksum⟩

theorem Describes.name_eq_of_spells {earlier fragments : List RawSlot} {raw : RawSlot}
    {entry : Entry} (h : Describes (earlier ++ fragments) raw entry)
    (hspells : Spells raw.shortName.checksum fragments) : entry.name =
      if spelledText fragments = "" then entry.shortName else spelledText fragments := by
  split <;> rename_i hempty
  · refine h.name_eq_shortName fun text hlong => ?_
    obtain ⟨name, hwaiting, -, -, htext, hne⟩ := isLongName_iff.mp hlong
    obtain ⟨name', hwaiting', -, -, htext'⟩ := hspells.exists_waiting earlier
    obtain rfl : name = name' := Option.some.inj (hwaiting.symm.trans hwaiting')
    exact hne (htext.symm.trans (htext'.trans hempty))
  · exact h.name_eq_of_isLongName _ ⟨earlier, fragments, rfl, hspells, rfl, hempty⟩

/-- The slots `between` separate the slot `raw` of an entry from that of the entry before it, which
is the last one of `before`, or from the start. -/
structure Separates (before between : List RawSlot) (raw : RawSlot) : Prop where
  previous : ∀ last ∈ before.getLast?, last.IsEntry
  not_end : ∀ slot ∈ before ++ between, ¬ slot.IsEnd
  not_entry : ∀ slot ∈ between, ¬ slot.IsEntry
  isEntry : raw.IsEntry

theorem Separates.events_eq {before between : List RawSlot} {raw : RawSlot}
    (h : Separates before between raw) (rest : List RawSlot) :
    (decoded (before ++ between ++ raw :: rest)).events.toList = (decoded before).events.toList ++
      (decoded (between ++ [raw])).events.toList ++ (decoded rest).events.toList := by
  have hsettled : Settled before := fun last hlast hfragment =>
    (h.previous last hlast).2.2 hfragment.2.2
  have hafter : (decoded (before ++ (between ++ [raw]))).decoder = .initial := by
    rw [← List.append_assoc]
    exact (settled_concat fun hkind => h.isEntry.2.2 hkind.2.2).decoder_eq
      (List.forall_mem_append.mpr ⟨h.not_end, List.forall_mem_singleton.mpr h.isEntry.1⟩)
  have hstart := Decoder.decodeSlots_append_of_initial
    (hsettled.decoder_eq (List.forall_mem_append.mp h.not_end).1) (between ++ [raw])
  have hrest := Decoder.decodeSlots_append_of_initial hafter rest
  have hassoc : before ++ between ++ raw :: rest = before ++ (between ++ [raw]) ++ rest := by
    simp
  rw [hassoc, decoded, hrest, hstart]
  simp only [Array.toList_append]

/-- What is reported from one entry up to the next has no warning just when deleted slots and then
at most one long name, which belongs to the second entry, stand between the two. So where fragments
stand there and no warning is given, they spell the name of that entry; but if their text is empty
it goes by its short name. -/
theorem entry_without_warning {before between : List RawSlot} {raw : RawSlot}
    (h : Separates before between raw) (rest : List RawSlot) :
    ∃ entry logged,
      let done := decoded (before ++ between ++ raw :: rest)
      done.entries.toList =
          (decoded before).entries.toList ++ entry :: (decoded rest).entries.toList ∧
        done.events.toList =
          (decoded before).events.toList ++ logged ++ (decoded rest).events.toList ∧
        (Unwarned logged ↔ ∃ deleted fragments, between = deleted ++ fragments ∧
          (∀ slot ∈ deleted, slot.IsDeleted) ∧
          (fragments = [] ∨ Spells raw.shortName.checksum fragments)) ∧
        ((∃ slot ∈ between, slot.IsFragment) → Unwarned logged →
          ∃ deleted fragments, between = deleted ++ fragments ∧
            Spells raw.shortName.checksum fragments ∧
            entry.name =
              if spelledText fragments = "" then entry.shortName else spelledText fragments) := by
  have hbetween := (List.forall_mem_append.mp h.not_end).2
  have hunwarned := unwarned_iff
    (fun slot hslot => ⟨hbetween slot hslot, h.not_entry slot hslot⟩) h.isEntry
  obtain ⟨entry, hdescribes, hdecoded⟩ := exists_describes h.not_end h.not_entry h.isEntry rest
  refine ⟨entry, (decoded (between ++ [raw])).events.toList, hdecoded, h.events_eq rest, hunwarned,
    fun hfragment hquiet => ?_⟩
  obtain ⟨deleted, fragments, rfl, hdeleted, rfl | hspells⟩ := hunwarned.mp hquiet
  · obtain ⟨slot, hslot, hkind⟩ := hfragment
    rw [List.append_nil] at hslot
    exact absurd (hdeleted slot hslot) hkind.2.1
  · rw [← List.append_assoc] at hdescribes
    exact ⟨deleted, fragments, rfl, hspells, hdescribes.name_eq_of_spells hspells⟩

end Directory

namespace Specimen

/-- The only fragment of a long name of the entry A, which holds no character. -/
def blankFragment : RawSlot :=
  Directory.fragmentSlot 0x41 0x80 (.ofFn fun i => if i.val = 0 then 0x0000 else 0xFFFF)

def blankEntry : RawSlot := Bytes.fieldAt (slot 0x41 0x20 3 1) 0 32

theorem separates_blank : Directory.Separates [] [blankFragment] blankEntry :=
  ⟨by simp, by decide, by decide, by decide⟩

theorem spells_blank : Directory.Spells blankEntry.shortName.checksum [blankFragment] :=
  ⟨by decide, by decide, ⟨blankFragment, rfl, by decide, by decide⟩, by simp, .nil, by decide⟩

theorem spelledText_blank : Directory.spelledText [blankFragment] = "" := by decide +kernel

/-- The blank name is all that stands before the entry, which goes by its short name. -/
theorem entry_without_warning_blank :
    ∃ entry logged,
      (Directory.decoded [blankFragment, blankEntry]).entries.toList = [entry] ∧
      (Directory.decoded [blankFragment, blankEntry]).events.toList = logged ∧
      Unwarned logged ∧ entry.name = entry.shortName := by
  obtain ⟨entry, logged, hentries, hevents, hunwarned, hname⟩ :=
    Directory.entry_without_warning separates_blank []
  have hquiet : Unwarned logged := hunwarned.mpr ⟨[], [blankFragment], rfl,
    List.forall_mem_nil _, .inr spells_blank⟩
  obtain ⟨deleted, fragments, hslots, hspells, hentry⟩ :=
    hname ⟨blankFragment, List.mem_singleton_self _, by decide⟩ hquiet
  have hfragments : fragments = [blankFragment] := by
    rcases List.sublist_singleton.mp (hslots ▸ List.sublist_append_right deleted fragments) with
      rfl | rfl
    · obtain ⟨first, hfirst, -⟩ := hspells.head
      contradiction
    · rfl
  rw [hfragments, spelledText_blank, if_pos rfl] at hentry
  exact ⟨entry, logged, hentries, hevents.trans (List.append_nil logged), hquiet, hentry⟩

end Specimen

namespace Directory

/-- An entry that comes after fragments without a warning need not go by a name that they spell. -/
theorem not_forall_unwarned_spelled :
    ¬ ∀ (before between rest : List RawSlot) (raw : RawSlot) (entry : Entry) (logged : List Event),
      Separates before between raw →
      (decoded (before ++ between ++ raw :: rest)).entries.toList =
        (decoded before).entries.toList ++ entry :: (decoded rest).entries.toList →
      (decoded (before ++ between ++ raw :: rest)).events.toList =
        (decoded before).events.toList ++ logged ++ (decoded rest).events.toList →
      (∃ slot ∈ between, slot.IsFragment) → Unwarned logged →
      ∃ earlier fragments later, between = earlier ++ fragments ++ later ∧
        Spells raw.shortName.checksum fragments ∧ entry.name = spelledText fragments := by
  intro h
  let entry : Entry := ⟨"A", "A", ⟨0x20⟩, 1, 3⟩
  obtain ⟨earlier, fragments, later, hslots, -, hname⟩ :=
    h [] [Specimen.blankFragment] [] Specimen.blankEntry entry [.entryDecoded entry]
      Specimen.separates_blank (by decide +kernel) (by decide +kernel)
      ⟨_, List.mem_singleton_self _, by decide⟩ (Unwarned.singleton_iff.mpr (by decide))
  have hsublist : fragments.Sublist [Specimen.blankFragment] := by
    rw [hslots, List.append_assoc]
    exact (List.sublist_append_left fragments later).trans (List.sublist_append_right earlier _)
  rcases List.sublist_singleton.mp hsublist with rfl | rfl
  · exact absurd hname (by decide +kernel)
  · rw [Specimen.spelledText_blank] at hname
    exact absurd hname (by decide)

end Directory

end Fat32
