import Fat32.Proofs.Bytes
import Fat32.Proofs.Directory.Slots
import Fat32.Proofs.Text.Utf16

/-!
# Writing directories

The slots that hold given entries. A long name is cut into pieces of thirteen code units. When
the last piece is not full, a zero ends the name and the filler 0xFFFF follows. The slot of the
last piece comes first, and the slot of the entry itself comes after those of its long name.
-/

namespace Fat32

namespace Bytes

def ofUnits (units : List UInt16) : Bytes := units.flatMap fun unit => ofValue 2 unit.toNat

theorem length_ofUnits (units : List UInt16) : (ofUnits units).length = 2 * units.length := by
  induction units with
  | nil => rfl
  | cons unit units ih =>
      simp only [ofUnits, List.flatMap_cons, List.length_append, length_ofValue] at ih ⊢
      rw [ih, List.length_cons]
      omega

theorem u16At_ofUnits {before : Bytes} {offset : Nat} (h : before.length = offset)
    {units : List UInt16} {i : Nat} (hi : i < units.length) (rest : Bytes) :
    u16At (before ++ (ofUnits units ++ rest)) (offset + 2 * i) = units[i] := by
  induction units generalizing before offset i with
  | nil => simp at hi
  | cons unit units ih =>
      have hsplit : ofUnits (unit :: units) ++ rest =
          ofValue 2 unit.toNat ++ (ofUnits units ++ rest) := by
        simp [ofUnits]
      cases i with
      | zero =>
          have hvalue : unit.toNat % 256 ^ 2 = unit.toNat := Nat.mod_eq_of_lt unit.toNat_lt
          rw [hsplit, Nat.mul_zero, Nat.add_zero, u16At, valueAt_field h, hvalue,
            UInt16.ofNat_toNat]
          rfl
      | succ i =>
          have hbefore : (before ++ ofValue 2 unit.toNat).length = offset + 2 := by
            simp [h]
          have hnext := ih hbefore (by simpa using hi)
          rw [List.append_assoc] at hnext
          rw [hsplit, show offset + 2 * (i + 1) = offset + 2 + 2 * i by omega, hnext]
          rfl

end Bytes

namespace Directory

/-! ## The slot of a fragment -/

def fragmentBytes (order checksum : UInt8) (units : List UInt16) : Bytes :=
  [order] ++ Bytes.ofUnits (units.take 5) ++ [0x0F, 0x00, checksum]
    ++ Bytes.ofUnits ((units.drop 5).take 6) ++ [0x00, 0x00] ++ Bytes.ofUnits (units.drop 11)

def fragmentSlot (order checksum : UInt8) (units : Units) : RawSlot :=
  Bytes.fieldAt (fragmentBytes order checksum units.toList) 0 32

section

variable (order checksum : UInt8) (units : Units)

theorem length_fragmentBytes : (fragmentBytes order checksum units.toList).length = 32 := by
  simp [fragmentBytes, Bytes.length_ofUnits]

theorem toList_fragmentSlot :
    (fragmentSlot order checksum units).toList = fragmentBytes order checksum units.toList :=
  Bytes.toList_fieldAt (length_fragmentBytes order checksum units)

theorem order_fragmentSlot : (fragmentSlot order checksum units).byte 0 = order := by
  rw [RawSlot.byte, toList_fragmentSlot]
  rfl

theorem attributes_fragmentSlot : (fragmentSlot order checksum units).byte 11 = 0x0F := by
  have hsplit : fragmentBytes order checksum units.toList =
      ([order] ++ Bytes.ofUnits (units.toList.take 5)) ++ 0x0F :: ([0x00, checksum]
        ++ Bytes.ofUnits ((units.toList.drop 5).take 6) ++ [0x00, 0x00]
        ++ Bytes.ofUnits (units.toList.drop 11)) := by
    simp [fragmentBytes]
  rw [RawSlot.byte, toList_fragmentSlot, hsplit]
  exact Bytes.byteAt_append (by simp [Bytes.length_ofUnits]) _ _

theorem checksum_fragmentSlot : (fragmentSlot order checksum units).byte 13 = checksum := by
  have hsplit : fragmentBytes order checksum units.toList =
      ([order] ++ Bytes.ofUnits (units.toList.take 5) ++ [0x0F, 0x00]) ++ checksum ::
        (Bytes.ofUnits ((units.toList.drop 5).take 6) ++ [0x00, 0x00]
        ++ Bytes.ofUnits (units.toList.drop 11)) := by
    simp [fragmentBytes]
  rw [RawSlot.byte, toList_fragmentSlot, hsplit]
  exact Bytes.byteAt_append (by simp [Bytes.length_ofUnits]) _ _

theorem u16At_fragmentSlot {i : Nat} (hi : i < 13) :
    Bytes.u16At (fragmentSlot order checksum units).toList (Fragment.unitOffset i) = units[i] := by
  rw [toList_fragmentSlot, Fragment.unitOffset]
  split <;> rename_i hfirst
  · have hrun : i < (units.toList.take 5).length := by
      simp
      omega
    have hsplit : fragmentBytes order checksum units.toList =
        [order] ++ (Bytes.ofUnits (units.toList.take 5) ++ ([0x0F, 0x00, checksum]
          ++ Bytes.ofUnits ((units.toList.drop 5).take 6) ++ [0x00, 0x00]
          ++ Bytes.ofUnits (units.toList.drop 11))) := by
      simp [fragmentBytes]
    rw [hsplit, Bytes.u16At_ofUnits (show [order].length = 1 from rfl) hrun]
    simp
  split <;> rename_i hsecond
  · have hrun : i - 5 < ((units.toList.drop 5).take 6).length := by
      simp
      omega
    have hsplit : fragmentBytes order checksum units.toList =
        ([order] ++ Bytes.ofUnits (units.toList.take 5) ++ [0x0F, 0x00, checksum])
          ++ (Bytes.ofUnits ((units.toList.drop 5).take 6) ++ ([0x00, 0x00]
          ++ Bytes.ofUnits (units.toList.drop 11))) := by
      simp [fragmentBytes]
    rw [hsplit, Bytes.u16At_ofUnits (by simp [Bytes.length_ofUnits]) hrun]
    simp only [List.getElem_take, List.getElem_drop, Vector.getElem_toList]
    congr 1
    omega
  · have hrun : i - 11 < (units.toList.drop 11).length := by
      simp
      omega
    have hsplit : fragmentBytes order checksum units.toList =
        ([order] ++ Bytes.ofUnits (units.toList.take 5) ++ [0x0F, 0x00, checksum]
          ++ Bytes.ofUnits ((units.toList.drop 5).take 6) ++ [0x00, 0x00])
          ++ (Bytes.ofUnits (units.toList.drop 11) ++ []) := by
      simp [fragmentBytes]
    rw [hsplit, Bytes.u16At_ofUnits (by simp [Bytes.length_ofUnits]) hrun]
    simp only [List.getElem_drop, Vector.getElem_toList]
    congr 1
    omega

theorem fragment_fragmentSlot :
    (fragmentSlot order checksum units).fragment = ⟨order, checksum, units⟩ := by
  have hunits : Vector.ofFn (fun i : Fin 13 =>
      Bytes.u16At (fragmentSlot order checksum units).toList (Fragment.unitOffset i)) = units := by
    apply Vector.ext
    intro i hi
    rw [Vector.getElem_ofFn, u16At_fragmentSlot order checksum units hi]
  have horder := order_fragmentSlot order checksum units
  have hchecksum := checksum_fragmentSlot order checksum units
  rw [RawSlot.byte] at horder hchecksum
  rw [RawSlot.fragment, Fragment.ofBytes, hunits, horder, hchecksum]

end

/-! ## The slots of an item -/

/-- A long name that can be written: one to 255 code units without the zero that ends a name and
without the filler. -/
structure LongName where
  text : String
  length_units : 1 ≤ (Text.Utf16.encode text.toList).length ∧
    (Text.Utf16.encode text.toList).length ≤ 255
  zero_notMem : '\x00' ∉ text.toList
  filler_notMem : '\uFFFF' ∉ text.toList

/-- A file or directory that can be written. What is stored on times and case is not read. -/
structure Item where
  longName : Option LongName
  shortName : ShortName
  attributes : Attributes
  firstCluster : UInt32
  size : UInt32
  creation : Vector UInt8 8
  change : Vector UInt8 4
  not_end : Bytes.byteAt shortName.toList 0 ≠ 0x00
  not_deleted : Bytes.byteAt shortName.toList 0 ≠ 0xE5
  not_fragment : attributes.bits &&& 0x3F ≠ 0x0F

def LongName.units (name : LongName) : List UInt16 := Text.Utf16.encode name.text.toList

def padded (units : List UInt16) : List UInt16 :=
  if units.length % 13 = 0 then units
  else units ++ 0x0000 :: List.replicate (12 - units.length % 13) 0xFFFF

def piece (units : List UInt16) (place : Nat) : Units :=
  .ofFn fun i => (padded units).getD (13 * (place - 1) + i) 0xFFFF

def pieceCount (units : List UInt16) : Nat := (units.length + 12) / 13

def pieceOrder (place : Nat) (isLast : Bool) : UInt8 :=
  .ofNat place ||| if isLast then 0x40 else 0x00

def pieceSlot (checksum : UInt8) (units : List UInt16) (place : Nat) : RawSlot :=
  fragmentSlot (pieceOrder place (place = pieceCount units)) checksum (piece units place)

def longSlots (checksum : UInt8) (units : List UInt16) : List RawSlot :=
  (List.range' 1 (pieceCount units)).reverse.map (pieceSlot checksum units)

namespace Item

def entryBytes (item : Item) : Bytes :=
  item.shortName.toList ++ [item.attributes.bits] ++ item.creation.toList
    ++ Bytes.ofValue 2 (item.firstCluster.toNat / 65536) ++ item.change.toList
    ++ Bytes.ofValue 2 (item.firstCluster.toNat % 65536) ++ Bytes.ofValue 4 item.size.toNat

def entrySlot (item : Item) : RawSlot := item.entryBytes.fieldAt 0 32

def nameSlots (item : Item) : List RawSlot :=
  item.longName.elim [] fun name => longSlots item.shortName.checksum name.units

def slots (item : Item) : List RawSlot := item.nameSlots ++ [item.entrySlot]

def short (item : Item) : ShortEntry :=
  ⟨item.shortName, item.attributes, item.firstCluster, item.size⟩

def entry (item : Item) : Entry :=
  item.short.named (item.longName.elim item.short.displayName LongName.text)

theorem toList_entrySlot (item : Item) : item.entrySlot.toList = item.entryBytes :=
  Bytes.toList_fieldAt (by simp [entryBytes])

theorem byteAt_entryBytes (item : Item) {i : Nat} (hi : i < 11) :
    Bytes.byteAt item.entryBytes i = item.shortName[i] := by
  simp only [entryBytes, List.append_assoc]
  exact Bytes.byteAt_toList item.shortName hi _

theorem attributes_entryBytes (item : Item) :
    Bytes.byteAt item.entryBytes 11 = item.attributes.bits := by
  simp only [entryBytes, List.append_assoc]
  exact Bytes.byteAt_append (by simp) _ _

theorem firstCluster_entryBytes (item : Item) :
    Bytes.valueAt item.entryBytes 20 2 * 65536 + Bytes.valueAt item.entryBytes 26 2 =
      item.firstCluster.toNat := by
  have hbound := item.firstCluster.toNat_lt
  have hhigh : Bytes.valueAt item.entryBytes 20 2 = item.firstCluster.toNat / 65536 := by
    have hsplit : item.entryBytes =
        (item.shortName.toList ++ [item.attributes.bits] ++ item.creation.toList)
          ++ (Bytes.ofValue 2 (item.firstCluster.toNat / 65536) ++ (item.change.toList
          ++ Bytes.ofValue 2 (item.firstCluster.toNat % 65536)
          ++ Bytes.ofValue 4 item.size.toNat)) := by
      simp [entryBytes]
    rw [hsplit, Bytes.valueAt_field (by simp)]
    omega
  have hlow : Bytes.valueAt item.entryBytes 26 2 = item.firstCluster.toNat % 65536 := by
    have hsplit : item.entryBytes =
        (item.shortName.toList ++ [item.attributes.bits] ++ item.creation.toList
          ++ Bytes.ofValue 2 (item.firstCluster.toNat / 65536) ++ item.change.toList)
          ++ (Bytes.ofValue 2 (item.firstCluster.toNat % 65536)
          ++ Bytes.ofValue 4 item.size.toNat) := by
      simp [entryBytes]
    rw [hsplit, Bytes.valueAt_field (by simp)]
    omega
  omega

theorem size_entryBytes (item : Item) : Bytes.valueAt item.entryBytes 28 4 = item.size.toNat := by
  have hbound := item.size.toNat_lt
  have hsplit : item.entryBytes =
      (item.shortName.toList ++ [item.attributes.bits] ++ item.creation.toList
        ++ Bytes.ofValue 2 (item.firstCluster.toNat / 65536) ++ item.change.toList
        ++ Bytes.ofValue 2 (item.firstCluster.toNat % 65536))
        ++ (Bytes.ofValue 4 item.size.toNat ++ []) := by
    simp [entryBytes]
  rw [hsplit, Bytes.valueAt_field (by simp)]
  omega

theorem entry_entrySlot (item : Item) : item.entrySlot.entry = item.short := by
  have hname : Bytes.fieldAt item.entryBytes 0 11 = item.shortName := by
    apply Vector.ext
    intro i hi
    simpa [Bytes.fieldAt] using item.byteAt_entryBytes hi
  rw [RawSlot.entry, toList_entrySlot, ShortEntry.ofBytes, hname, attributes_entryBytes,
    firstCluster_entryBytes, Bytes.u32At, size_entryBytes, UInt32.ofNat_toNat, UInt32.ofNat_toNat]
  rfl

theorem isEntry_entrySlot (item : Item) : item.entrySlot.IsEntry := by
  have hfirst : item.entrySlot.byte 0 = Bytes.byteAt item.shortName.toList 0 := by
    have hname := Bytes.byteAt_toList item.shortName (show 0 < 11 by decide) []
    rw [List.append_nil] at hname
    rw [RawSlot.byte, toList_entrySlot, byteAt_entryBytes _ (by decide), hname]
  have hattributes : item.entrySlot.byte 11 = item.attributes.bits := by
    rw [RawSlot.byte, toList_entrySlot, attributes_entryBytes]
  rw [RawSlot.IsEntry, hfirst, hattributes]
  exact ⟨item.not_end, item.not_deleted, item.not_fragment⟩

theorem shortName_entrySlot (item : Item) : item.entrySlot.shortName = item.shortName := by
  rw [← RawSlot.name_entry, entry_entrySlot]
  rfl

end Item

/-! ## The slots of a long name -/

theorem pieceOrder_spec : ∀ place < 21, ∀ isLast : Bool, 1 ≤ place →
    (pieceOrder place isLast ≠ 0x00 ∧ pieceOrder place isLast ≠ 0xE5) ∧
      (pieceOrder place isLast &&& 0x40 ≠ 0 ↔ isLast = true) ∧
      (pieceOrder place isLast &&& 0x1F).toNat = place := by
  decide

section

variable (checksum : UInt8) (units : List UInt16) {place : Nat} (hlow : 1 ≤ place)
  (hhigh : place ≤ 20)

include hlow hhigh

theorem isFragment_pieceSlot : (pieceSlot checksum units place).IsFragment := by
  obtain ⟨⟨hend, hdeleted⟩, -⟩ :=
    pieceOrder_spec place (by omega) (place = pieceCount units) hlow
  rw [RawSlot.IsFragment, pieceSlot, order_fragmentSlot, attributes_fragmentSlot]
  exact ⟨hend, hdeleted, by decide⟩

theorem isLast_pieceSlot :
    (pieceSlot checksum units place).IsLast ↔ place = pieceCount units := by
  have hlast := (pieceOrder_spec place (by omega) (place = pieceCount units) hlow).2.1
  rw [RawSlot.IsLast, pieceSlot, order_fragmentSlot, hlast, decide_eq_true_iff]

theorem sequence_pieceSlot : (pieceSlot checksum units place).sequence = place := by
  rw [RawSlot.sequence, pieceSlot, order_fragmentSlot]
  exact (pieceOrder_spec place (by omega) (place = pieceCount units) hlow).2.2

end

theorem units_pieceSlot (checksum : UInt8) (units : List UInt16) (place : Nat) :
    (pieceSlot checksum units place).units = (piece units place).toList := by
  rw [← RawSlot.units_fragment, pieceSlot, fragment_fragmentSlot]

theorem length_padded (units : List UInt16) : (padded units).length = 13 * pieceCount units := by
  rw [padded, pieceCount]
  split
  · omega
  · rw [List.length_append, List.length_cons, List.length_replicate]
    omega

theorem flatMap_piece (units : List UInt16) :
    ((List.range' 1 (pieceCount units)).flatMap fun place => (piece units place).toList) =
      padded units := by
  have hpieces (count : Nat) (hcount : count ≤ pieceCount units) :
      ((List.range' 1 count).flatMap fun place => (piece units place).toList) =
        (padded units).take (13 * count) := by
    induction count with
    | zero => rfl
    | succ count ih =>
        have hlength := length_padded units
        have hpiece : (piece units (1 + 1 * count)).toList =
            ((padded units).drop (13 * count)).take 13 := by
          apply List.ext_getElem
          · simp
            omega
          · intro i hi hi'
            have hplace : 13 * count + i < (padded units).length := by
              simp only [List.length_take, List.length_drop] at hi'
              omega
            simp [piece, hplace]
        rw [List.range'_concat, List.flatMap_append, ih (by omega), List.flatMap_singleton, hpiece,
          Nat.mul_succ, List.take_add]
  rw [hpieces _ (Nat.le_refl _), List.take_of_length_le (Nat.le_of_eq (length_padded units))]

end Directory

end Fat32
