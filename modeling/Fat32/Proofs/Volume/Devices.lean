import Fat32.Proofs.Specimen
import Fat32.Proofs.Volume.Answers
import Fat32.Proofs.Volume.Mounting

/-!
# Independence of the device

Two devices without faults over one image tell the same about the volume on it, whether they
hold the image in memory or share a stream of it and whatever the sizes of their sectors are, as
long as these divide the image and fit into the sectors of the volume. Only the numbers of the
sectors that errors name are told in the terms of each device.
-/

namespace Fat32

open Error (UpToSector)

theorem Error.sameness_upToSector : Error.Sameness UpToSector where
  refl := .refl
  eq_of_local h hlocal := by
    cases h with
    | refl => rfl
    | io sector other fault => simp [isSubtreeLocal] at hlocal

namespace Device.Over

variable {image : Image} {first second : Device}

theorem servedAlike {volume : Volume} (hfirst : first.Over image) (hsecond : second.Over image)
    (hvolume : image.volume = .ok volume)
    (hfits : first.sectorSize ≤ volume.bytesPerSector.toNat ∧
      second.sectorSize ≤ volume.bytesPerSector.toNat) :
    volume.ServedAlike UpToSector first.medium second.medium := by
  have hsectors (sector : UInt32) (count length : Nat) :
      Alike UpToSector (volume.sectorsOn first.medium sector count length)
        (volume.sectorsOn second.medium sector count length) := by
    rw [Volume.sectorsOn_medium, Volume.sectorsOn_medium]
    have hread := hfirst.alike_sectorsOn (hfirst.sectorSize_dvd hvolume hfits.1) sector count length
    have hother := hsecond.alike_sectorsOn (hsecond.sectorSize_dvd hvolume hfits.2) sector count
      length
    exact hread.trans .trans (hother.symm .symm)
  exact ⟨fun _ _ => hsectors _ _ _, fun _ _ _ => hsectors _ _ _⟩

theorem volume_of_mount {session : Session} {mounted : Mounted} (h : first.Over image)
    (hfits : ∀ volume, image.volume = .ok volume →
      first.sectorSize ≤ volume.bytesPerSector.toNat)
    (hsession : session.device.medium = first.medium)
    (hmount : (mount.perform session).1 = .ok mounted) : image.volume = .ok mounted.volume := by
  obtain ⟨result, hgives, halike⟩ := h.exists_gives_mount hfits
  have hresult : result = .ok mounted := (hgives session hsession).1.symm.trans hmount
  have himage := halike.eq_ok hresult
  rw [Image.mount] at himage
  split at himage
  · contradiction
  · cases hvolume : image.volume with
    | error flaw => simp [hvolume] at himage
    | ok volume =>
        rw [hvolume] at himage
        obtain rfl := Except.ok.inj himage
        rfl

/-- Mounting succeeds with the same volume and hints on both devices or fails alike on both, and
after mounting every call is answered alike. -/
theorem mount_and_answers_alike (hfirst : first.Over image) (hsecond : second.Over image)
    (hfits : ∀ volume, image.volume = .ok volume →
      first.sectorSize ≤ volume.bytesPerSector.toNat ∧
        second.sectorSize ≤ volume.bytesPerSector.toNat) :
    mount.AlikeOn UpToSector first.medium second.medium ∧
      ∀ session mounted, session.device.medium = first.medium →
        (mount.perform session).1 = .ok mounted →
          mounted.volume.AnswersAlike UpToSector first.medium second.medium := by
  constructor
  · obtain ⟨result, hgives, halike⟩ := hfirst.exists_gives_mount fun v hv => (hfits v hv).1
    obtain ⟨other, hother, hotherAlike⟩ := hsecond.exists_gives_mount fun v hv => (hfits v hv).2
    exact .of_gives hgives hother (halike.trans .trans (hotherAlike.symm .symm))
  · intro session mounted hsession hmount
    have hvolume := volume_of_mount hfirst (fun v hv => (hfits v hv).1) hsession hmount
    have hserved := hfirst.servedAlike hsecond hvolume (hfits mounted.volume hvolume)
    exact hserved.answersAlike Error.sameness_upToSector

end Device.Over

/-- The specimen in memory, and as a stream in sectors of half the size. -/
theorem Specimen.mount_and_answers_alike_specimen :
    mount.AlikeOn UpToSector (Device.ofImage image 256).medium
        (Device.ofStream (.whole image) 128).medium ∧
      volume.AnswersAlike UpToSector (Device.ofImage image 256).medium
        (Device.ofStream (.whole image) 128).medium := by
  have hfirst : (Device.ofImage image 256).Over image := ⟨.memory, by decide, 17, rfl⟩
  have hsecond : (Device.ofStream (.whole image) 128).Over image :=
    ⟨.stream #[], by decide, 34, rfl⟩
  have hvolume : image.volume = .ok volume := eq_ok_of_toOption (by decide +kernel)
  have hfits (v : Volume) (hv : image.volume = .ok v) :
      256 ≤ v.bytesPerSector.toNat ∧ 128 ≤ v.bytesPerSector.toNat := by
    obtain rfl := Except.ok.inj (hvolume.symm.trans hv)
    decide
  have hmounted : (mount.perform (.start (.ofImage image 256))).1 =
      .ok ⟨volume, some ⟨some 3, some 6⟩⟩ :=
    eq_ok_of_toOption (by decide +kernel)
  obtain ⟨hmount, hanswers⟩ := Device.Over.mount_and_answers_alike hfirst hsecond hfits
  exact ⟨hmount, hanswers _ _ rfl hmounted⟩

end Fat32
