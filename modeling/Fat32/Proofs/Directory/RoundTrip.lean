import Fat32.Proofs.Directory.Grammar
import Fat32.Proofs.Directory.Writing

/-!
# Directories written and read back

What has been written as the slots of some items is read as their entries, in the same order.
Deleted slots may stand before each item and after the last one, and anything at all may follow a
slot that marks the end.
-/

namespace Fat32

namespace Directory

/-! ## A written long name -/

theorem mem_longSlots {checksum : UInt8} {units : List UInt16} {raw : RawSlot} :
    raw ∈ longSlots checksum units ↔
      ∃ place, (1 ≤ place ∧ place ≤ pieceCount units) ∧ pieceSlot checksum units place = raw := by
  have hrange (place : Nat) : place < 1 + pieceCount units ↔ place ≤ pieceCount units := by
    omega
  simp only [longSlots, List.mem_map, List.mem_reverse, List.mem_range'_1, hrange]

theorem longSlots_eq_cons {checksum : UInt8} {units : List UInt16} {others : Nat}
    (h : pieceCount units = others + 1) :
    longSlots checksum units = pieceSlot checksum units (others + 1) ::
      (List.range' 1 others).reverse.map (pieceSlot checksum units) := by
  rw [longSlots, h, List.range'_concat, List.reverse_append, Nat.one_mul, Nat.add_comm 1 others]
  rfl

theorem LongName.pieceCount_bounds (name : LongName) :
    1 ≤ pieceCount name.units ∧ pieceCount name.units ≤ 20 := by
  have := name.length_units
  rw [pieceCount, units]
  omega

theorem spells_longSlots (checksum : UInt8) (name : LongName) :
    Spells checksum (longSlots checksum name.units) := by
  have hbounds := name.pieceCount_bounds
  obtain ⟨others, hothers⟩ : ∃ others, pieceCount name.units = others + 1 :=
    ⟨pieceCount name.units - 1, by omega⟩
  have hrest : ∀ place ∈ (List.range' 1 others).reverse, 1 ≤ place ∧ place ≤ others := by
    intro place hplace
    rw [List.mem_reverse, List.mem_range'_1] at hplace
    omega
  rw [longSlots_eq_cons hothers]
  refine ⟨?_, ?_, ⟨_, rfl, ?_, ?_⟩, ?_, ?_, ?_⟩
  · intro raw hraw
    rw [← longSlots_eq_cons hothers] at hraw
    obtain ⟨place, hplace, rfl⟩ := mem_longSlots.mp hraw
    exact isFragment_pieceSlot _ _ hplace.1 (by omega)
  · simp
    omega
  · rw [isLast_pieceSlot _ _ (by omega) (by omega), hothers]
  · rw [sequence_pieceSlot _ _ (by omega) (by omega)]
    simp
  · intro raw hraw
    obtain ⟨place, hplace, rfl⟩ := List.mem_map.mp hraw
    have := hrest place hplace
    rw [isLast_pieceSlot _ _ (by omega) (by omega)]
    omega
  · have hsequences : ((List.range' 1 others).reverse.map (pieceSlot checksum name.units)).map
        RawSlot.sequence = (List.range' 1 others).reverse := by
      rw [List.map_map]
      refine (List.map_congr_left fun place hplace => ?_).trans (List.map_id _)
      have := hrest place hplace
      exact sequence_pieceSlot _ _ (by omega) (by omega)
    rw [List.tail_cons, hsequences, List.length_map, List.length_reverse, List.length_range']
    exact List.reverse_perm _
  · intro raw hraw
    rw [← longSlots_eq_cons hothers] at hraw
    obtain ⟨place, -, rfl⟩ := mem_longSlots.mp hraw
    exact checksum_fragmentSlot _ _ _

theorem spelledUnits_longSlots (checksum : UInt8) (name : LongName) :
    spelledUnits (longSlots checksum name.units) = padded name.units := by
  have hbounds := name.pieceCount_bounds
  rw [spelledUnits, longSlots, List.length_map, List.length_reverse, List.length_range',
    ← flatMap_piece, ← longSlots]
  apply List.flatMap_congr
  intro place hplace
  have hrange : 1 ≤ place ∧ place ≤ pieceCount name.units := by
    rw [List.mem_range'_1] at hplace
    omega
  cases hfind : (longSlots checksum name.units).find? fun raw => raw.sequence = place with
  | none =>
      have hmem := mem_longSlots.mpr ⟨place, hrange, Eq.refl (pieceSlot checksum name.units place)⟩
      have hnone := List.find?_eq_none.mp hfind _ hmem
      rw [sequence_pieceSlot _ _ hrange.1 (by omega)] at hnone
      simp at hnone
  | some raw =>
      -- no two pieces have one number, so the one found is that of `place`
      obtain ⟨other, hother, rfl⟩ := mem_longSlots.mp (List.mem_of_find?_eq_some hfind)
      have hsequence := List.find?_some hfind
      rw [sequence_pieceSlot _ _ hother.1 (by omega)] at hsequence
      obtain rfl : other = place := by simpa using hsequence
      exact units_pieceSlot checksum name.units other

theorem textUnits_padded {units : List UInt16} (hzero : 0x0000 ∉ units) (hfiller : 0xFFFF ∉ units) :
    ((padded units).takeWhile (· != 0x0000)).filter (· != 0xFFFF) = units := by
  have htake : (padded units).takeWhile (· != 0x0000) = units := by
    have hunits : ∀ unit ∈ units, (unit != 0x0000) = true := by
      intro unit hunit
      rw [bne_iff_ne]
      rintro rfl
      exact hzero hunit
    rw [padded]
    split
    · exact List.takeWhile_eq_self_iff.mpr hunits
    · rw [List.takeWhile_append_of_pos hunits, List.takeWhile_cons_of_neg (by decide),
        List.append_nil]
  rw [htake, List.filter_eq_self]
  intro unit hunit
  rw [bne_iff_ne]
  rintro rfl
  exact hfiller hunit

theorem LongName.notMem_units (name : LongName) : 0x0000 ∉ name.units ∧ 0xFFFF ∉ name.units := by
  have hchar {char : Char} (h : char ∉ name.text.toList) {unit : UInt16}
      (hplain : unit.toNat < 0xD800 ∨ 0xDFFF < unit.toNat) (hvalue : unit.toNat = char.toNat) :
      unit ∉ name.units := by
    intro hunit
    obtain ⟨other, hother, hmem⟩ := List.mem_flatMap.mp hunit
    have hsame : other.toNat = char.toNat := (Text.Utf16.mem_unitsOf hmem hplain).trans hvalue
    rw [← Char.ofNat_toNat other, hsame, Char.ofNat_toNat] at hother
    exact h hother
  exact ⟨hchar name.zero_notMem (by decide) (by decide),
    hchar name.filler_notMem (by decide) (by decide)⟩

theorem spelledText_longSlots (checksum : UInt8) (name : LongName) :
    spelledText (longSlots checksum name.units) = name.text := by
  obtain ⟨hzero, hfiller⟩ := name.notMem_units
  rw [spelledText, spelledUnits_longSlots, textUnits_padded hzero hfiller, LongName.units,
    Text.Utf16.decodeLossy_encode, String.ofList_toList]

/-! ## Items one after the other -/

def Settled (slots : List RawSlot) : Prop := ∀ raw ∈ slots.getLast?, ¬ raw.IsFragment

theorem Settled.not_isLongName {before : List RawSlot} (h : Settled before) (raw : RawSlot)
    (text : String) : ¬ IsLongName before raw text := by
  rintro ⟨earlier, fragments, rfl, hspells, -⟩
  rcases fragments.eq_nil_or_concat with rfl | ⟨others, last, rfl⟩
  · obtain ⟨first, hfirst, -⟩ := hspells.head
    simp at hfirst
  · exact h last (by simp) (hspells.isFragment last (by simp))

theorem Settled.foldl_waiting_eq {slots : List RawSlot} (h : Settled slots) :
    slots.foldl waiting none = none := by
  rcases slots.eq_nil_or_concat with rfl | ⟨others, last, rfl⟩
  · rfl
  · rw [List.concat_eq_append, List.foldl_append, List.foldl_cons, List.foldl_nil, waiting,
      if_neg (h last (by simp))]

theorem Settled.decoder_eq {slots : List RawSlot} (h : Settled slots)
    (hends : ∀ raw ∈ slots, ¬ raw.IsEnd) : (decoded slots).decoder = .initial := by
  rw [decoder_decoded hends, h.foldl_waiting_eq]
  rfl

theorem settled_concat {slots : List RawSlot} {raw : RawSlot} (h : ¬ raw.IsFragment) :
    Settled (slots ++ [raw]) := by
  simpa [Settled] using h

theorem entries_append {slots others : List RawSlot} (hends : ∀ raw ∈ slots ++ others, ¬ raw.IsEnd)
    (hothers : ∀ raw ∈ others, ¬ raw.IsEntry) :
    (decoded (slots ++ others)).entries.toList = (decoded slots).entries.toList := by
  induction others using List.reverseRecOn with
  | nil => rw [List.append_nil]
  | append_singleton others raw ih =>
      rw [← List.append_assoc] at hends ⊢
      rw [entries_concat fun raw hraw => hends raw (List.mem_append_left _ hraw),
        if_neg (hothers raw (by simp)), List.append_nil]
      exact ih (fun raw hraw => hends raw (List.mem_append_left _ hraw))
        fun raw hraw => hothers raw (List.mem_append_left _ hraw)

theorem Item.isFragment_nameSlots {item : Item} {raw : RawSlot} (h : raw ∈ item.nameSlots) :
    raw.IsFragment := by
  cases hname : item.longName with
  | none => simp [Item.nameSlots, hname] at h
  | some name =>
      simp only [Item.nameSlots, hname, Option.elim_some] at h
      exact (spells_longSlots item.shortName.checksum name).isFragment raw h

theorem Item.not_isEnd {item : Item} {raw : RawSlot} (h : raw ∈ item.slots) : ¬ raw.IsEnd := by
  rcases List.mem_append.mp h with h | h
  · exact (Item.isFragment_nameSlots h).1
  · rw [List.mem_singleton.mp h]
    exact item.isEntry_entrySlot.1

theorem Item.name_eq {item : Item} {before : List RawSlot} {entry : Entry}
    (hsettled : Settled before)
    (h : Describes (before ++ item.nameSlots) item.entrySlot entry) :
    entry.name = item.longName.elim entry.shortName LongName.text := by
  cases hname : item.longName with
  | none =>
      apply h.name_eq_shortName
      rw [nameSlots, hname, Option.elim_none, List.append_nil]
      exact hsettled.not_isLongName item.entrySlot
  | some name =>
      apply h.name_eq_of_isLongName
      rw [nameSlots, hname]
      refine ⟨before, _, rfl, ?_, spelledText_longSlots _ name, ?_⟩
      · rw [item.shortName_entrySlot]
        exact spells_longSlots _ name
      · rw [Option.elim_some]
        intro hempty
        have := name.length_units.1
        simp [hempty, Text.Utf16.encode] at this

theorem entries_item {before : List RawSlot} (item : Item)
    (hends : ∀ raw ∈ before, ¬ raw.IsEnd) (hsettled : Settled before) :
    (decoded (before ++ item.slots)).entries.toList =
      (decoded before).entries.toList ++ [item.entry] := by
  have hnames : ∀ raw ∈ before ++ item.nameSlots, ¬ raw.IsEnd := by
    intro raw hraw
    rcases List.mem_append.mp hraw with hraw | hraw
    · exact hends raw hraw
    · exact (Item.isFragment_nameSlots hraw).1
  have hname : ((decoded (before ++ item.nameSlots)).decoder.nameFor item.entrySlot.entry).1 =
      item.longName.elim item.entrySlot.entry.displayName LongName.text :=
    Item.name_eq hsettled (describes_entry hnames)
  rw [Item.slots, ← List.append_assoc, entries_concat hnames, if_pos item.isEntry_entrySlot,
    entries_append hnames fun raw hraw hentry => hentry.2.2 (Item.isFragment_nameSlots hraw).2.2]
  rw [hname, item.entry_entrySlot, Item.entry]

/-! ## Whole directories -/

structure Group where
  gap : List {raw : RawSlot // raw.IsDeleted}
  item : Item

def Group.slots (group : Group) : List RawSlot := group.gap.map Subtype.val ++ group.item.slots

/-- A directory as it is stored: its items, deleted slots after them and, where its end is marked,
that slot and the bytes that follow it. -/
structure Layout where
  groups : List Group
  gap : List {raw : RawSlot // raw.IsDeleted}
  ending : Option ({raw : RawSlot // raw.IsEnd} × Bytes)

namespace Layout

def items (layout : Layout) : List Item := layout.groups.map Group.item

def slots (layout : Layout) : List RawSlot :=
  layout.groups.flatMap Group.slots ++ layout.gap.map Subtype.val

def bytes (layout : Layout) : Bytes :=
  Bytes.ofSlots layout.slots ++
    layout.ending.elim [] fun ending => ending.1.val.toList ++ ending.2

end Layout

/-! ## Round trip -/

theorem not_isEnd_gap {gap : List {raw : RawSlot // raw.IsDeleted}} :
    ∀ raw ∈ gap.map Subtype.val, ¬ raw.IsEnd := by
  intro raw hraw hend
  obtain ⟨⟨raw, hdeleted⟩, -, rfl⟩ := List.mem_map.mp hraw
  rw [RawSlot.IsDeleted, show raw.byte 0 = 0x00 from hend] at hdeleted
  contradiction

theorem not_isEnd_groups {groups : List Group} :
    ∀ raw ∈ groups.flatMap Group.slots, ¬ raw.IsEnd := by
  intro raw hraw
  obtain ⟨group, -, hraw⟩ := List.mem_flatMap.mp hraw
  rcases List.mem_append.mp hraw with hraw | hraw
  · exact not_isEnd_gap raw hraw
  · exact Item.not_isEnd hraw

theorem Settled.append_gap {slots : List RawSlot} (h : Settled slots)
    (gap : List {raw : RawSlot // raw.IsDeleted}) : Settled (slots ++ gap.map Subtype.val) := by
  rcases gap.eq_nil_or_concat with rfl | ⟨others, last, rfl⟩
  · simpa using h
  · rw [List.concat_eq_append, List.map_append, ← List.append_assoc]
    exact settled_concat fun hfragment => hfragment.2.1 last.property

theorem settled_groups (groups : List Group) : Settled (groups.flatMap Group.slots) := by
  rcases groups.eq_nil_or_concat with rfl | ⟨others, last, rfl⟩
  · simp [Settled]
  · rw [List.concat_eq_append, List.flatMap_append, List.flatMap_singleton, Group.slots, Item.slots,
      ← List.append_assoc, ← List.append_assoc]
    exact settled_concat fun hfragment => last.item.isEntry_entrySlot.2.2 hfragment.2.2

theorem entries_gap {slots : List RawSlot} (hends : ∀ raw ∈ slots, ¬ raw.IsEnd)
    (gap : List {raw : RawSlot // raw.IsDeleted}) :
    (decoded (slots ++ gap.map Subtype.val)).entries.toList = (decoded slots).entries.toList := by
  apply entries_append
  · intro raw hraw
    exact (List.mem_append.mp hraw).elim (hends raw) (not_isEnd_gap raw)
  · intro raw hraw hentry
    obtain ⟨⟨raw, hdeleted⟩, -, rfl⟩ := List.mem_map.mp hraw
    exact hentry.2.1 hdeleted

theorem entries_groups (groups : List Group) :
    (decoded (groups.flatMap Group.slots)).entries.toList =
      groups.map fun group => group.item.entry := by
  induction groups using List.reverseRecOn with
  | nil => rfl
  | append_singleton groups group ih =>
      have hgap : ∀ raw ∈ groups.flatMap Group.slots ++ group.gap.map Subtype.val,
          ¬ raw.IsEnd := by
        intro raw hraw
        exact (List.mem_append.mp hraw).elim (not_isEnd_groups raw) (not_isEnd_gap raw)
      rw [List.flatMap_append, List.flatMap_singleton, Group.slots, ← List.append_assoc,
        entries_item group.item hgap ((settled_groups groups).append_gap group.gap),
        entries_gap not_isEnd_groups, ih, List.map_append, List.map_singleton]

/-- What is written for some items is read as their entries, whatever follows the end. -/
theorem ofBytes_bytes (layout : Layout) :
    Entry.ofBytes layout.bytes = layout.items.map Item.entry := by
  have hends : ∀ raw ∈ layout.slots, ¬ raw.IsEnd := by
    intro raw hraw
    exact (List.mem_append.mp hraw).elim (not_isEnd_groups raw) (not_isEnd_gap raw)
  have hlisted : layout.bytes.slots.takeWhile (fun raw => ¬ raw.IsEnd) = layout.slots := by
    rw [Layout.bytes, Bytes.slots_ofSlots,
      List.takeWhile_append_of_pos fun raw hraw => by simpa using hends raw hraw]
    cases layout.ending with
    | none => simp [Bytes.slots_of_length_lt]
    | some ending =>
        rw [Option.elim_some, Bytes.slots_append,
          List.takeWhile_cons_of_neg (by simpa using ending.1.property), List.append_nil]
  have hentries : (decoded layout.slots).entries.toList =
      layout.groups.map fun group => group.item.entry := by
    rw [Layout.slots, entries_gap not_isEnd_groups, entries_groups]
  rw [Entry.ofBytes, Decoder.decode, ← decoded, entries_decoded, hlisted, hentries, Layout.items,
    List.map_map]
  rfl

end Directory

end Fat32
