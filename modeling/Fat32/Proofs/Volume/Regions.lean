import Fat32.Proofs.Specimen
import Fat32.Proofs.Volume.Answers
import Fat32.Proofs.Volume.Mounting

/-!
# What a volume is read from

Of an image in memory only the boot record, the active table and the data area count. Two images
that agree there are mounted as the same volume and tell the same about it, whatever the other
reserved sectors, the other copies of the table and the bytes after the volume hold. Only the
allocation hints come from somewhere else.
-/

namespace Fat32

/-! ## Images that agree -/

def Image.AgreeOn (image other : Image) (first past : Nat) : Prop :=
  ∀ i, first ≤ i → i < past → i < image.size → image.byte i = other.byte i

/-- The images agree on all that a volume on them is read from. -/
structure Image.AgreeWhereRead (image other : Image) : Prop where
  size_eq : image.size = other.size
  boot : image.AgreeOn other 0 BootRecord.length
  table : ∀ volume, image.volume = .ok volume →
    let size := volume.bytesPerSector.toNat
    let start := volume.tableStart.toNat
    image.AgreeOn other (start * size) ((start + volume.sectorsPerTable.toNat) * size)
  data : ∀ volume, image.volume = .ok volume →
    let size := volume.bytesPerSector.toNat
    image.AgreeOn other (volume.dataStart.toNat * size) (volume.totalSectors.toNat * size)

namespace Image

variable {image other : Image}

theorem AgreeOn.mono {first past first' past' : Nat} (h : image.AgreeOn other first past)
    (hfirst : first ≤ first') (hpast : past' ≤ past) : image.AgreeOn other first' past' :=
  fun i hi hi' => h i (Nat.le_trans hfirst hi) (Nat.lt_of_lt_of_le hi' hpast)

theorem AgreeOn.slice_eq {start count : Nat} (h : image.AgreeOn other start (start + count))
    (hsize : start + count ≤ image.size) : image.slice start count = other.slice start count := by
  apply List.map_congr_left
  intro i hi
  rw [List.mem_range'_1] at hi
  exact h i hi.1 hi.2 (Nat.lt_of_lt_of_le hi.2 hsize)

theorem AgreeWhereRead.volume_eq (h : image.AgreeWhereRead other) :
    image.volume = other.volume := by
  have hstart : image.slice 0 (min BootRecord.length image.size) =
      other.slice 0 (min BootRecord.length image.size) :=
    (h.boot.mono (Nat.le_refl 0) (by omega)).slice_eq (by omega)
  rw [volume, volume, hstart, h.size_eq]

end Image

/-! ## Reading from memory -/

namespace Device

variable {image other : Image} {size : Nat}

theorem result_readSectors_cases (hsize : image.size = other.size) (first count length : Nat) :
    (∃ error, ((ofImage image size).readSectors first count length).1.result = .error error ∧
      ((ofImage other size).readSectors first count length).1.result = .error error) ∨
    ∃ bytes bytesOther,
      ((ofImage image size).readSectors first count length).1.result = .ok bytes ∧
      ((ofImage other size).readSectors first count length).1.result = .ok bytesOther := by
  have houtcome : ((ofImage image size).readSectors first count length).1.outcome =
      ((ofImage other size).readSectors first count length).1.outcome := by
    by_cases hlength : length = count * size
    · rw [readSectors_ofImage image size hlength, readSectors_ofImage other size hlength, hsize]
    · rw [readSectors_of_length_ne _ first hlength, readSectors_of_length_ne _ first hlength]
  rw [Transfer.result, Transfer.result, houtcome]
  rcases ((ofImage other size).readSectors first count length).1.outcome with error | _
  · exact .inl ⟨error, rfl, rfl⟩
  · exact .inr ⟨_, _, rfl, rfl⟩

theorem eq_slice_of_readSectors (hpos : 0 < size) {first count length : Nat} {bytes : Bytes}
    (h : ((ofImage image size).readSectors first count length).1.result = .ok bytes) :
    bytes = image.slice (first * size) (count * size) ∧
      (count * size = 0 ∨ first * size + count * size ≤ image.size) := by
  have hserve : image.serve (first * size) (count * size) length = .ok bytes :=
    (@alike_readSectors image (ofImage image size) .memory hpos first count length).eq_ok h
  rw [Image.serve] at hserve
  split at hserve
  · contradiction
  split at hserve
  case isTrue hfits => exact ⟨(Except.ok.inj hserve).symm, hfits⟩
  case isFalse => contradiction

theorem result_readSectors_congr (hpos : 0 < size) (hsize : image.size = other.size)
    {first count : Nat}
    (h : image.AgreeOn other (first * size) (first * size + count * size)) (length : Nat) :
    ((ofImage image size).readSectors first count length).1.result =
      ((ofImage other size).readSectors first count length).1.result := by
  rcases result_readSectors_cases hsize first count length with
    ⟨error, herror, hother⟩ | ⟨bytes, bytesOther, hbytes, hother⟩
  · rw [herror, hother]
  · obtain ⟨rfl, hfits⟩ := eq_slice_of_readSectors hpos hbytes
    obtain ⟨rfl, -⟩ := eq_slice_of_readSectors hpos hother
    rw [hbytes, hother]
    rcases hfits with hzero | hfits
    · rw [hzero, Image.slice_zero, Image.slice_zero]
    · rw [h.slice_eq hfits]

end Device

/-! ## Mounting -/

section

variable {image other : Image} {size : Nat}

theorem Device.parse_of_readStart (hpower : isPowerOfTwo size)
    {bytes : Bytes} (h : (ofImage image size).readStart.1.result = .ok bytes) :
    Volume.parse bytes = image.volume := by
  have hpos := pos_of_isPowerOfTwo hpower
  have hcover := le_roundedUp hpos BootRecord.length
  obtain ⟨rfl, hfits⟩ := eq_slice_of_readSectors hpos h
  have hlength : 0 < BootRecord.length := by decide
  rw [Nat.zero_mul] at hfits ⊢
  exact Image.volume_of_le hcover (by simp only [ofImage] at hfits hcover; omega)

theorem Device.of_mount_ofImage {session : Session} {mounted : Mounted}
    (hsession : session.device.medium = ofImage image size)
    (h : (mount.perform session).1 = .ok mounted) :
    image.volume = .ok mounted.volume ∧ isPowerOfTwo size ∧
      size ≤ mounted.volume.bytesPerSector.toNat := by
  have hstart := map_volume_mount session
  rw [h, eq_ofImage_of_medium hsession] at hstart
  obtain ⟨hpower, hle, bytes, hbytes, hparse⟩ := Volume.of_ofStart hstart.symm
  exact ⟨(parse_of_readStart hpower hbytes).symm.trans hparse, hpower, hle⟩

theorem Image.AgreeWhereRead.ofStart_eq (h : image.AgreeWhereRead other) :
    Volume.ofStart size (Device.ofImage image size).readStart.1.result =
      Volume.ofStart size (Device.ofImage other size).readStart.1.result := by
  by_cases hpower : isPowerOfTwo size = true
  · have hcases : (∃ error, (Device.ofImage image size).readStart.1.result = .error error ∧
          (Device.ofImage other size).readStart.1.result = .error error) ∨
        ∃ bytes bytesOther, (Device.ofImage image size).readStart.1.result = .ok bytes ∧
          (Device.ofImage other size).readStart.1.result = .ok bytesOther :=
      Device.result_readSectors_cases h.size_eq _ _ _
    rcases hcases with ⟨error, herror, hother⟩ | ⟨bytes, bytesOther, hbytes, hother⟩
    · rw [herror, hother]
    · have hparse : Volume.parse bytes = Volume.parse bytesOther := by
        rw [Device.parse_of_readStart hpower hbytes, Device.parse_of_readStart hpower hother,
          h.volume_eq]
      simp only [hbytes, hother, Volume.ofStart, Except.bind, hparse]
  · rw [Volume.ofStart, Volume.ofStart, if_neg hpower, if_neg hpower]

theorem Image.AgreeWhereRead.coupled_mount (h : image.AgreeWhereRead other) (size : Nat) :
    Coupled (Device.ofImage image size) (Device.ofImage other size)
      (fun result result' => result.map (·.volume) = result'.map (·.volume))
      Fat32.mount.run Fat32.mount.run := by
  intro s t hs ht
  have hmount : (Fat32.mount.perform s).1.map (·.volume) =
      (Fat32.mount.perform t).1.map (·.volume) := by
    rw [map_volume_mount, map_volume_mount, Device.eq_ofImage_of_medium hs,
      Device.eq_ofImage_of_medium ht]
    exact h.ofStart_eq
  exact ⟨hmount, (medium_mount s).trans hs, (medium_mount t).trans ht⟩

/-! ## Answers -/

theorem Volume.sectorsOn_ofImage_congr {volume : Volume} (h : image.size = other.size)
    (hpos : 0 < size) (hdvd : size ∣ volume.bytesPerSector.toNat) {sector : UInt32}
    {count first past : Nat}
    (hagree : image.AgreeOn other (first * volume.bytesPerSector.toNat)
      (past * volume.bytesPerSector.toNat))
    (hfirst : first ≤ sector.toNat) (hpast : sector.toNat + count ≤ past) (length : Nat) :
    volume.sectorsOn (Device.ofImage image size) sector count length =
      volume.sectorsOn (Device.ofImage other size) sector count length := by
  have hrange := hagree.mono (Nat.mul_le_mul_right _ hfirst) (Nat.mul_le_mul_right _ hpast)
  apply Device.result_readSectors_congr hpos h
  dsimp only [Device.ofImage]
  rw [← Nat.add_mul, ← Nat.add_mul, Nat.mul_assoc, Nat.mul_assoc, Nat.div_mul_cancel hdvd]
  exact hrange

/-- No stream is read from behind an image in memory, so a deadline has passed or never passes. -/
theorem Session.gives_checkDeadline_ofImage (deadline : Option Nat) (path : String) :
    (Device.ofImage image size).Gives (checkDeadline deadline path).run
      (if deadline.any (· ≤ 0) then .error (.cancelled path) else .ok ()) := by
  apply Device.Gives.get_bind
  intro session hsession
  have hcount : session.device.readCount = 0 := by
    rw [Device.eq_ofImage_of_medium hsession]
    rfl
  dsimp only
  rw [hcount]
  split
  · exact .throw _
  · exact .access_pure ()

theorem Session.coupled_checkDeadline_ofImage (deadline : Option Nat) (path : String) :
    (checkDeadline deadline path).AlikeOn (· = ·) (Device.ofImage image size)
      (Device.ofImage other size) :=
  .of_gives (gives_checkDeadline_ofImage deadline path) (gives_checkDeadline_ofImage deadline path)
    (.refl (fun _ => rfl) _)

theorem Image.AgreeWhereRead.servedAlike {volume : Volume} (h : image.AgreeWhereRead other)
    (hvolume : image.volume = .ok volume) (hpower : isPowerOfTwo size)
    (hle : size ≤ volume.bytesPerSector.toNat) :
    volume.ServedAlike (· = ·) (Device.ofImage image size) (Device.ofImage other size) := by
  have haccepted := Volume.accepted_of_parse hvolume
  have hpos := pos_of_isPowerOfTwo hpower
  have hdvd := haccepted.dvd_bytesPerSector hpower hle
  constructor
  · intro cluster hcluster
    obtain ⟨hlow, hhigh⟩ := haccepted.entrySector_spec hcluster
    rw [Volume.sectorsOn_ofImage_congr h.size_eq hpos hdvd (h.table volume hvolume) hlow hhigh]
    exact .refl (fun _ => rfl) _
  · intro cluster hcluster length
    obtain ⟨hstart, hend⟩ := haccepted.clusterSector_spec hcluster
    rw [Volume.sectorsOn_ofImage_congr h.size_eq hpos hdvd (h.data volume hvolume) (by omega) hend]
    exact .refl (fun _ => rfl) _

/-- Of two images in memory that agree where a volume is read from, mounting gives the same volume
or the same error, and then every call has the same result on both: on the table, a chain, a
cluster, a directory, a path, and a survey of any options. -/
theorem Image.AgreeWhereRead.mount_and_answers_same (h : image.AgreeWhereRead other) (size : Nat) :
    let first := Device.ofImage image size
    let second := Device.ofImage other size
    Coupled first second (fun result result' => result.map (·.volume) = result'.map (·.volume))
        Fat32.mount.run Fat32.mount.run ∧
      ∀ session mounted, session.device.medium = first →
        (Fat32.mount.perform session).1 = .ok mounted →
          mounted.volume.AnswersAlike (· = ·) first second ∧
          (∀ chain : Chain, Coupled first second (· = ·) (chain.advance mounted.volume)
            (chain.advance mounted.volume)) ∧
          ∀ options cluster,
            (mounted.volume.survey options cluster).AlikeOn (· = ·) first second := by
  intro first second
  refine ⟨h.coupled_mount size, fun session mounted hsession hmount => ?_⟩
  obtain ⟨hvolume, hpower, hle⟩ := Device.of_mount_ofImage hsession hmount
  have hserved := h.servedAlike hvolume hpower hle
  have hsame : Error.Sameness (· = ·) := ⟨fun _ => rfl, fun h _ => h⟩
  refine ⟨hserved.answersAlike hsame, fun chain => ?_, fun options cluster => ?_⟩
  · refine (Chain.coupled_advance hsame hserved chain).imp ?_
    rintro ⟨item?, next⟩ ⟨other?, _⟩ ⟨hitem, rfl⟩
    cases hitem with
    | none => rfl
    | some hitem => rw [hitem.eq]
  · exact Volume.coupled_survey hsame hserved
      (Session.coupled_checkDeadline_ofImage options.deadline) cluster

end

/-! ## The specimen -/

namespace Specimen

theorem byte_hintless {i : Nat} (h : i < 512 ∨ 1024 ≤ i) : image.byte i = hintless.byte i := by
  have hhints : ∀ part ∈ hintParts, (if part.1 ≤ i then part.2[i - part.1]? else none) = none := by
    intro part hpart
    split
    case isFalse => rfl
    case isTrue hle =>
      simp only [hintParts, List.mem_cons, List.not_mem_nil, or_false] at hpart
      rcases hpart with rfl | rfl | rfl <;> simp at hle ⊢ <;> omega
  have hnone : (hintParts.findSome? fun part =>
      if part.1 ≤ i then part.2[i - part.1]? else none) = none :=
    List.findSome?_eq_none_iff.mpr hhints
  simp only [image, hintless, Image.ofParts, List.findSome?_append, hnone, Option.or_none]

theorem agreeWhereRead_hintless : image.AgreeWhereRead hintless := by
  have hvolume : image.volume = .ok volume := eq_ok_of_toOption (by decide +kernel)
  refine ⟨rfl, fun i _ hi _ => byte_hintless (.inl hi), ?_, ?_⟩ <;>
  · intro v hv
    obtain rfl := Except.ok.inj (hvolume.symm.trans hv)
    exact fun i hi _ _ => byte_hintless (.inr (Nat.le_trans (by decide) hi))

/-- With and without its hints the specimen is the same volume, and all calls have the same
results. -/
theorem mount_and_answers_same_hintless :
    let first := Device.ofImage image 256
    let second := Device.ofImage hintless 256
    image.AgreeWhereRead hintless ∧
      (mount.perform (.start first)).1 = .ok ⟨volume, some ⟨some 3, some 6⟩⟩ ∧
      (mount.perform (.start second)).1 = .ok ⟨volume, none⟩ ∧
      volume.AnswersAlike (· = ·) first second := by
  intro first second
  have hmounted : (mount.perform (.start first)).1 = .ok ⟨volume, some ⟨some 3, some 6⟩⟩ :=
    eq_ok_of_toOption (by decide +kernel)
  obtain ⟨-, hanswers⟩ := agreeWhereRead_hintless.mount_and_answers_same 256
  exact ⟨agreeWhereRead_hintless, hmounted, eq_ok_of_toOption (by decide +kernel),
    (hanswers _ _ rfl hmounted).1⟩

end Specimen

end Fat32
