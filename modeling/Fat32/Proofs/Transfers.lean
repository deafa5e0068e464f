import Fat32.Device

/-!
# Reads of several sectors

What becomes of a read of several sectors of an image, and of the buffer that it is read into. From
memory the sectors are copied one by one until one is missing; a stream is read at once, and not at
all if the last sector is missing. Both serve the same requests with the same bytes.
-/

namespace Fat32

namespace Transfer

theorem buffer_slice (outcome : Except Error Unit) (image : Image) (start count : Nat)
    (before : Bytes) : (Transfer.mk outcome (image.slice start count)).buffer before =
      image.slice start count ++ before.drop count := by
  rw [buffer, Image.length_slice]

theorem buffer_slice_length (outcome : Except Error Unit) (image : Image) (start : Nat)
    (before : Bytes) : (Transfer.mk outcome (image.slice start before.length)).buffer before =
      image.slice start before.length := by
  rw [buffer_slice, List.drop_length, List.append_nil]

end Transfer

namespace Device

variable (image : Image) (size : Nat)

/-! ## From memory -/

theorem readEach_ofImage (count start : Nat) (copied : List Bytes) :
    let sectors := image.size / size
    let served := min count (sectors - start)
    readEach count (ofImage image size) start copied =
      (⟨if served = count then .ok () else .error (.io (max start sectors) .outOfRange),
        copied.reverse.flatten ++ image.slice (start * size) (served * size)⟩,
        ofImage image size) := by
  intro sectors served
  have hrefusal (sector : Nat) : (ofImage image size).refusal? sector size =
      if sectors ≤ sector then some (.io sector .outOfRange) else none := by
    simp [refusal?, sectorCount, byteCount, ofImage, sectors]
  induction count generalizing start copied with
  | zero => simp [readEach, served]
  | succ count ih =>
      simp only [readEach, readSector, show (ofImage image size).sectorSize = size from rfl,
        hrefusal]
      by_cases hmissing : sectors ≤ start
      · rw [if_pos hmissing]
        have hserved : served = 0 := by omega
        have hmax : max start sectors = start := Nat.max_eq_left hmissing
        simp [Transfer.refused, hserved, hmax]
      · rw [if_neg hmissing]
        have hserved : served = min count (sectors - (start + 1)) + 1 := by omega
        have hmax : max start sectors = max (start + 1) sectors := by omega
        -- the sector at `start` moves from what is still to be read to what is copied
        have hslice : image.slice (start * size) (served * size) =
            image.slice (start * size) size ++
              image.slice ((start + 1) * size) (min count (sectors - (start + 1)) * size) := by
          rw [Nat.succ_mul, Image.slice_append, hserved, Nat.succ_mul, Nat.add_comm size]
        have hrest := ih (start + 1) (image.slice (start * size) size :: copied)
        rw [hslice, hmax, hserved]
        simpa [copy, ofImage] using hrest

theorem readSectors_ofImage {count length : Nat} (h : length = count * size) (start : Nat) :
    let sectors := image.size / size
    let served := min count (sectors - start)
    (ofImage image size).readSectors start count length =
      (⟨if served = count then .ok () else .error (.io (max start sectors) .outOfRange),
        image.slice (start * size) (served * size)⟩, ofImage image size) :=
  (if_neg (not_not_intro h)).trans (readEach_ofImage image size count start [])

/-! ## From a stream -/

theorem mul_add_mul_le {start count : Nat} (h : start + count ≤ image.size / size) :
    start * size + count * size ≤ image.size := by
  rw [← Nat.add_mul]
  exact Nat.le_trans (Nat.mul_le_mul_right size h) (Nat.div_mul_le_self _ _)

theorem readRun_ofStream (reads : Array StreamRead) (start count : Nat) :
    (readRun (ofStream ⟨image, image.size, .none, reads⟩ size) start count).1 =
      if count = 0 ∨ start + count ≤ image.size / size then
        ⟨.ok (), image.slice (start * size) (count * size)⟩
      else .refused (.io (start + count - 1) .outOfRange) := by
  rcases Nat.eq_zero_or_pos count with rfl | hcount
  · simp [readRun]
  have hrefusal (sector : Nat) :
      (ofStream ⟨image, image.size, .none, reads⟩ size).refusal? sector size =
        if image.size / size ≤ sector then some (.io sector .outOfRange) else none := by
    simp [refusal?, sectorCount, byteCount, ofStream]
  rw [readRun, if_neg (Nat.ne_of_gt hcount)]
  simp only [show (ofStream ⟨image, image.size, .none, reads⟩ size).sectorSize = size from rfl,
    hrefusal]
  by_cases hfits : start + count ≤ image.size / size
  · have hfault (reads : Array StreamRead) : Stream.fault? ⟨image, image.size, .none, reads⟩
        (start * size) (count * size) = none :=
      if_pos (mul_add_mul_le image size hfits)
    rw [if_pos (Or.inr hfits), if_neg (by omega)]
    simp [ofStream, copy, Stream.read, hfault]
  · rw [if_neg (not_or_intro (Nat.ne_of_gt hcount) hfits), if_pos (by omega)]

theorem readSectors_ofStream_eq_readRun {count length : Nat} (h : length = count * size)
    (start : Nat) (stream : Stream) :
    (ofStream stream size).readSectors start count length =
      (ofStream stream size).readRun start count :=
  if_neg (not_not_intro h)

/-! ## From both -/

theorem readSectors_of_length_ne (device : Device) (start : Nat) {count length : Nat}
    (h : length ≠ count * device.sectorSize) :
    device.readSectors start count length = (.refused (.io start .bufferSize), device) :=
  if_pos h

/-- Memory and a stream of all of the image without faults serve the same requests: those for a
buffer of just the right length and for sectors that are all there, or for none. The buffer then
holds the bytes of the image. A wrong length is refused at the first sector and leaves the buffer as
it was. Where a sector is missing, memory reports the first one that is and has copied those before
it; a stream reports the last sector of the request and leaves the buffer as it was. -/
theorem readSectors_by_one_rule (start count : Nat) (reads : Array StreamRead) (before : Bytes) :
    let sectors := image.size / size
    let memory := ((ofImage image size).readSectors start count before.length).1
    let stream := ((ofStream ⟨image, image.size, .none, reads⟩ size).readSectors start count
      before.length).1
    let fitting := before.length = count * size
    let available := count = 0 ∨ start + count ≤ sectors
    let missing := max start sectors
    let kept := (missing - start) * size
    (memory.outcome = .ok () ↔ fitting ∧ available) ∧
      (stream.outcome = .ok () ↔ fitting ∧ available) ∧
      (fitting → available →
        memory.buffer before = image.slice (start * size) before.length ∧
        stream.buffer before = image.slice (start * size) before.length) ∧
      (¬ fitting →
        memory.outcome = .error (.io start .bufferSize) ∧ memory.buffer before = before ∧
        stream.outcome = .error (.io start .bufferSize) ∧ stream.buffer before = before) ∧
      (fitting → ¬ available →
        memory.outcome = .error (.io missing .outOfRange) ∧
        memory.buffer before = image.slice (start * size) kept ++ before.drop kept ∧
        stream.outcome = .error (.io (start + count - 1) .outOfRange) ∧
        stream.buffer before = before) := by
  intro sectors memory stream fitting available missing kept
  by_cases hfitting : fitting
  · have hmemory : memory = _ := congrArg Prod.fst (readSectors_ofImage image size hfitting start)
    have hstream : stream = _ :=
      congrArg Prod.fst (readSectors_ofStream_eq_readRun size hfitting start _)
    rw [readRun_ofStream] at hstream
    by_cases havailable : available
    · have hserved : min count (image.size / size - start) = count := by omega
      rw [hserved, if_pos rfl] at hmemory
      rw [if_pos havailable] at hstream
      rw [hmemory, hstream, ← show before.length = count * size from hfitting]
      have hbuffer := Transfer.buffer_slice_length (.ok ()) image (start * size) before
      exact ⟨⟨fun _ => ⟨hfitting, havailable⟩, fun _ => rfl⟩,
        ⟨fun _ => ⟨hfitting, havailable⟩, fun _ => rfl⟩, fun _ _ => ⟨hbuffer, hbuffer⟩,
        fun h => absurd hfitting h, fun _ h => absurd havailable h⟩
    · have hserved : min count (image.size / size - start) = missing - start := by omega
      rw [hserved, if_neg (by omega)] at hmemory
      rw [if_neg havailable] at hstream
      rw [hmemory, hstream]
      exact ⟨⟨nofun, fun h => absurd h.2 havailable⟩, ⟨nofun, fun h => absurd h.2 havailable⟩,
        fun _ h => absurd h havailable, fun h => absurd hfitting h,
        fun _ _ => ⟨rfl, Transfer.buffer_slice _ image _ _ before, rfl, rfl⟩⟩
  · have hmemory : memory = .refused (.io start .bufferSize) :=
      congrArg Prod.fst (readSectors_of_length_ne _ start hfitting)
    have hstream : stream = .refused (.io start .bufferSize) :=
      congrArg Prod.fst (readSectors_of_length_ne _ start hfitting)
    rw [hmemory, hstream]
    exact ⟨⟨nofun, fun h => absurd h.1 hfitting⟩, ⟨nofun, fun h => absurd h.1 hfitting⟩,
      fun h => absurd h hfitting, fun _ => ⟨rfl, rfl, rfl, rfl⟩, fun h => absurd h hfitting⟩

/-- Ten bytes hold two sectors of four. Of three sectors from the second on, memory copies the
one that is there and reports sector 2; a stream reports sector 3. -/
theorem readSectors_by_one_rule_torn :
    let image : Image := ⟨10, fun offset => .ofNat (offset + 1)⟩
    let before : Bytes := List.replicate 12 0xFF
    let memory := ((ofImage image 4).readSectors 1 3 before.length).1
    let stream := ((ofStream (.whole image) 4).readSectors 1 3 before.length).1
    memory.outcome = .error (.io 2 .outOfRange) ∧
      memory.buffer before = [5, 6, 7, 8] ++ List.replicate 8 0xFF ∧
      stream.outcome = .error (.io 3 .outOfRange) ∧ stream.buffer before = before ∧
      ((ofImage image 4).readSectors 0 2 8).1.buffer (List.replicate 8 0) =
        [1, 2, 3, 4, 5, 6, 7, 8] := by
  intro image before memory stream
  obtain ⟨-, -, -, -, hmissing⟩ := readSectors_by_one_rule image 4 1 3 #[] before
  obtain ⟨hmemory, hcopied, hstream, hsame⟩ := hmissing (by decide) (by decide)
  obtain ⟨-, -, hread, -, -⟩ := readSectors_by_one_rule image 4 0 2 #[] (List.replicate 8 0)
  have hfirst : max 1 (image.size / 4) = 2 := by decide
  rw [hfirst] at hmemory hcopied
  exact ⟨hmemory, hcopied, hstream, hsame, (hread (by decide) (by decide)).1⟩

end Device

end Fat32
