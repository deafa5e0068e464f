import Fat32.Proofs.Directory.Grammar
import Fat32.Proofs.Directory.Writing
import Fat32.Proofs.Specimen

/-!
# Decoding chunk by chunk

What a decoder makes of bytes that come in parts. A cut between two slots leaves no trace: the
decoder goes on from where it stands, through an end mark to nothing.
-/

namespace Fat32

def Bytes.hasEnd (bytes : Bytes) : Bool := bytes.slots.any fun raw => raw.IsEnd

theorem Bytes.getElem?_takeSlots {count n : Nat} (hn : n < count) (bytes : Bytes) :
    (bytes.takeSlots count)[n]? = some (fieldAt (bytes.drop (32 * n)) 0 32) := by
  induction count generalizing n bytes with
  | zero => contradiction
  | succ count ih =>
      cases n with
      | zero => rfl
      | succ n =>
          rw [takeSlots, List.getElem?_cons_succ, ih (Nat.lt_of_succ_lt_succ hn), List.drop_drop,
            Nat.mul_succ, Nat.add_comm 32]

theorem Bytes.hasEnd_iff {bytes : Bytes} : bytes.hasEnd ↔
    ∃ n, 32 * n + 32 ≤ bytes.length ∧ bytes[32 * n]? = some 0x00 := by
  have hfirst (n : Nat) (hn : 32 * n + 32 ≤ bytes.length) :
      RawSlot.IsEnd (fieldAt (bytes.drop (32 * n)) 0 32) ↔ bytes[32 * n]? = some 0x00 := by
    have hbyte : RawSlot.byte (fieldAt (bytes.drop (32 * n)) 0 32) 0 = bytes.byteAt (32 * n) := by
      simp [RawSlot.byte, byteAt, fieldAt]
    have hlt : 32 * n < bytes.length := by omega
    rw [RawSlot.IsEnd, hbyte, byteAt, List.getD_eq_getElem?_getD, List.getElem?_eq_getElem hlt]
    simp
  rw [hasEnd, List.any_eq_true]
  constructor
  · rintro ⟨raw, hraw, hend⟩
    obtain ⟨n, hn⟩ := List.mem_iff_getElem?.mp hraw
    have hlt : n < bytes.length / 32 := by
      rw [← length_slots]
      exact (List.getElem?_eq_some_iff.mp hn).1
    have hlength : 32 * n + 32 ≤ bytes.length := by omega
    rw [slots, getElem?_takeSlots hlt, Option.some.injEq] at hn
    subst hn
    exact ⟨n, hlength, (hfirst n hlength).mp (by simpa using hend)⟩
  · rintro ⟨n, hlength, hzero⟩
    have hslot := getElem?_takeSlots (show n < bytes.length / 32 by omega) bytes
    exact ⟨_, List.mem_of_getElem? hslot, by simpa using (hfirst n hlength).mpr hzero⟩

theorem Bytes.hasEnd_of_getElem? {bytes more : Bytes} {n : Nat} {raw : RawSlot}
    (hlength : bytes.length = 32 * (n + 1)) (hraw : (bytes ++ more).slots[n]? = some raw)
    (hend : raw.IsEnd) : bytes.hasEnd := by
  have hslots : n < bytes.slots.length := by
    rw [length_slots, hlength, Nat.mul_div_cancel_left _ (by decide)]
    exact n.lt_succ_self
  rw [slots_append_of_dvd ⟨n + 1, hlength⟩, List.getElem?_append_left hslots] at hraw
  exact List.any_eq_true.mpr ⟨raw, List.mem_of_getElem? hraw, by simpa using hend⟩

namespace Decoder

theorem feed_eq (done : Decoded) (raw : RawSlot) :
    feed done raw =
      let more := feed ⟨done.decoder, #[], #[]⟩ raw
      ⟨more.decoder, done.entries ++ more.entries, done.events ++ more.events⟩ := by
  by_cases hfinished : done.decoder.finished = true
  · simp [feed, hfinished]
  · have happend {α : Type} (all : Array α) (more : List α) : all ++ more = all ++ more.toArray :=
      Array.ext' (by simp)
    simp [feed, hfinished, happend]

/-- What was decoded before adds to what is decoded from here on, and changes nothing about it. -/
theorem foldl_feed (done : Decoded) (slots : List RawSlot) :
    slots.foldl feed done =
      let more := done.decoder.decodeSlots slots
      ⟨more.decoder, done.entries ++ more.entries, done.events ++ more.events⟩ := by
  induction slots generalizing done with
  | nil => simp [decodeSlots]
  | cons raw slots ih =>
      rw [List.foldl_cons, decodeSlots, List.foldl_cons, ih (feed done raw), ih (feed _ raw),
        feed_eq done raw]
      simp only [Array.append_assoc]

theorem decodeSlots_append_of_initial {slots : List RawSlot}
    (h : (initial.decodeSlots slots).decoder = initial) (rest : List RawSlot) :
    initial.decodeSlots (slots ++ rest) =
      let done := initial.decodeSlots slots
      let next := initial.decodeSlots rest
      ⟨next.decoder, done.entries ++ next.entries, done.events ++ next.events⟩ := by
  have hrest := foldl_feed (initial.decodeSlots slots) rest
  rw [h] at hrest
  rw [decodeSlots, List.foldl_append]
  exact hrest

theorem finished_foldl_feed (done : Decoded) (slots : List RawSlot) :
    (slots.foldl feed done).decoder.finished =
      (done.decoder.finished || slots.any fun raw => raw.IsEnd) := by
  induction slots generalizing done with
  | nil => simp
  | cons raw slots ih =>
      have hfeed : (feed done raw).decoder.finished =
          (done.decoder.finished || decide raw.IsEnd) := by
        rw [feed]
        by_cases hfinished : done.decoder.finished = true
        · simp [hfinished]
        · by_cases hend : raw.IsEnd
          · simp [hfinished, hend, RawSlot.ofRaw_of_isEnd hend, step]
          · simp [hfinished, hend, Directory.step_next hend]
      rw [List.foldl_cons, ih, hfeed, List.any_cons, Bool.or_assoc]

theorem finished_decode (decoder : Decoder) (bytes : Bytes) :
    (decoder.decode bytes).decoder.finished = (decoder.finished || bytes.hasEnd) := by
  rw [decode, decodeSlots, finished_foldl_feed, Bytes.hasEnd]

section

variable {bytes : Bytes} (hbytes : 32 ∣ bytes.length)
include hbytes

theorem decode_append (decoder : Decoder) (more : Bytes) :
    decoder.decode (bytes ++ more) =
      let done := decoder.decode bytes
      let next := done.decoder.decode more
      ⟨next.decoder, done.entries ++ next.entries, done.events ++ next.events⟩ := by
  rw [decode, decodeSlots, Bytes.slots_append_of_dvd hbytes, List.foldl_append]
  exact foldl_feed _ _

theorem decode_append_of_hasEnd (hend : bytes.hasEnd) (decoder : Decoder) (more : Bytes) :
    decoder.decode (bytes ++ more) = decoder.decode bytes := by
  have hfinished : (decoder.decode bytes).decoder.finished = true := by
    rw [finished_decode, hend, Bool.or_true]
  rw [decode, decodeSlots, Bytes.slots_append_of_dvd hbytes, List.foldl_append]
  exact Directory.foldl_feed_of_finished hfinished more.slots

end

/-! ## Any number of chunks -/

/-- Decodes chunks one after another, each from where the one before left the decoder. -/
def decodeChunks (decoder : Decoder) : List Bytes → Decoded
  | [] => ⟨decoder, #[], #[]⟩
  | chunk :: chunks =>
      let done := decoder.decode chunk
      let next := done.decoder.decodeChunks chunks
      ⟨next.decoder, done.entries ++ next.entries, done.events ++ next.events⟩

theorem decodeChunks_append (decoder : Decoder) (chunks later : List Bytes) :
    decoder.decodeChunks (chunks ++ later) =
      let done := decoder.decodeChunks chunks
      let next := done.decoder.decodeChunks later
      ⟨next.decoder, done.entries ++ next.entries, done.events ++ next.events⟩ := by
  induction chunks generalizing decoder with
  | nil => simp [decodeChunks]
  | cons chunk chunks ih => simp only [List.cons_append, decodeChunks, ih, Array.append_assoc]

theorem decodeChunks_of_finished {decoder : Decoder} (h : decoder.finished = true)
    (chunks : List Bytes) : decoder.decodeChunks chunks = ⟨decoder, #[], #[]⟩ := by
  induction chunks with
  | nil => rfl
  | cons chunk chunks ih =>
      have hchunk : decoder.decode chunk = ⟨decoder, #[], #[]⟩ :=
        Directory.foldl_feed_of_finished h chunk.slots
      simp only [decodeChunks, hchunk, ih, Array.append_empty]

theorem decodeChunks_eq_decode (decoder : Decoder) {chunks : List Bytes}
    (hcut : ∀ chunk ∈ chunks.dropLast, 32 ∣ chunk.length) :
    decoder.decodeChunks chunks = decoder.decode chunks.flatten := by
  induction chunks generalizing decoder with
  | nil => rfl
  | cons chunk chunks ih =>
      cases chunks with
      | nil => simp [decodeChunks]
      | cons next chunks =>
          rw [List.dropLast_cons_cons, List.forall_mem_cons] at hcut
          rw [decodeChunks, List.flatten_cons, decode_append hcut.1, ih _ hcut.2]

/-- However a directory is cut between its slots, its entries are those of the whole, and its end
has been seen just when a slot of the whole is the end. After that nothing adds an entry. -/
theorem decodeChunks_exact {chunks : List Bytes}
    (hcut : ∀ chunk ∈ chunks.dropLast, 32 ∣ chunk.length) :
    (initial.decodeChunks chunks).entries.toList = Entry.ofBytes chunks.flatten ∧
    ((initial.decodeChunks chunks).decoder.finished = true ↔
      ∃ n, 32 * n + 32 ≤ chunks.flatten.length ∧ chunks.flatten[32 * n]? = some 0x00) ∧
    ∀ fed later : List Bytes, (initial.decodeChunks fed).decoder.finished = true →
      (initial.decodeChunks (fed ++ later)).entries = (initial.decodeChunks fed).entries := by
  have hwhole := initial.decodeChunks_eq_decode hcut
  refine ⟨?_, ?_, fun fed later hfinished => ?_⟩
  · rw [hwhole]
    rfl
  · rw [hwhole, finished_decode, ← Bytes.hasEnd_iff]
    rfl
  · rw [decodeChunks_append]
    simp only [decodeChunks_of_finished hfinished, Array.append_empty]

end Decoder

namespace Specimen

/-- A name in two pieces, which a cut and an empty chunk keep apart, then its entry, the end of the
directory, and bytes that fill no slot. -/
def cutDirectory : List Bytes :=
  let short : ShortName := .ofFn fun i => if i = 0 then 0x45 else 0x20
  let pieces := Directory.longSlots short.checksum (Text.Utf16.encode "a name of parts".toList)
  [.ofSlots (pieces.take 1), [], .ofSlots (pieces.drop 1) ++ slot 0x45 0x20 7 1, .replicate 40 0]

/-- The name is put together across the cut, and the entry that comes too late is left out. -/
theorem decodeChunks_exact_cut :
    (∀ chunk ∈ cutDirectory.dropLast, 32 ∣ chunk.length) ∧
      (Decoder.initial.decodeChunks cutDirectory).entries.toList =
        [⟨"a name of parts", "E", ⟨0x20⟩, 1, 7⟩] ∧
      (Decoder.initial.decodeChunks (cutDirectory ++ [slot 0x46 0x20 8 1])).entries.toList =
        [⟨"a name of parts", "E", ⟨0x20⟩, 1, 7⟩] := by
  have hcut : ∀ chunk ∈ cutDirectory.dropLast, 32 ∣ chunk.length := by decide +kernel
  obtain ⟨hentries, hfinished, hlater⟩ := Decoder.decodeChunks_exact hcut
  have hdecoded : Entry.ofBytes cutDirectory.flatten =
      [⟨"a name of parts", "E", ⟨0x20⟩, 1, 7⟩] := by
    decide +kernel
  have hend := hfinished.mpr ⟨3, by decide +kernel, by decide +kernel⟩
  rw [hlater _ _ hend, hentries]
  exact ⟨hcut, hdecoded, hdecoded⟩

end Specimen

end Fat32
