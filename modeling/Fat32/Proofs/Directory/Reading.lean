import Fat32.Directory.Reading
import Fat32.Proofs.Cluster.Resolution
import Fat32.Proofs.Directory.Slots
import Fat32.Proofs.Volume.Content

/-!
# Reading directories from an unchanging medium

What a directory is read as depends on the medium and its first cluster alone, neither on the
session nor on the path that names it in reports. It holds no more entries than there are slots
in all data clusters, for its chain takes no cluster twice.
-/

namespace Fat32

/-! ## The number of entries -/

namespace Decoder

theorem size_entries_feed (done : Decoded) (raw : RawSlot) :
    (feed done raw).entries.size ≤ done.entries.size + 1 := by
  rw [feed]
  split
  · exact Nat.le_succ _
  · cases hentry : (done.decoder.step (.ofRaw raw)).entry <;> simp [hentry]

theorem size_entries_decode (decoder : Decoder) (bytes : Bytes) :
    (decoder.decode bytes).entries.size ≤ bytes.length / 32 := by
  have hslots (slots : List RawSlot) (done : Decoded) :
      (slots.foldl feed done).entries.size ≤ done.entries.size + slots.length := by
    induction slots generalizing done with
    | nil => exact Nat.le_refl _
    | cons raw slots ih =>
        have hnext := ih (feed done raw)
        have hfeed := size_entries_feed done raw
        rw [List.foldl_cons, List.length_cons]
        omega
  have hdecode := hslots bytes.slots ⟨decoder, #[], #[]⟩
  rw [Bytes.length_slots] at hdecode
  simpa [decode, decodeSlots] using hdecode

end Decoder

/-! ## Reading -/

namespace Volume

def decodedOn (volume : Volume) (device : Device) (item : Except Error UInt32)
    (state : Decoder × Array Entry) : Except Error (ForInStep (Decoder × Array Entry)) := do
  let cluster ← item
  let bytes ← volume.clusterOn device cluster
  let decoded := state.1.decode bytes
  let state := (decoded.decoder, state.2 ++ decoded.entries)
  return if decoded.decoder.finished then .done state else .yield state

variable {volume : Volume} {medium : Device}

theorem gives_checkDeadline (path : String) :
    medium.Gives (Session.checkDeadline none path).run (.ok ()) :=
  fun _ h => ⟨rfl, h⟩

theorem gives_decodeNext (path : String) (item : Except Error UInt32)
    (state : Decoder × Array Entry) :
    medium.Gives (volume.decodeNext none path item state).run
      (volume.decodedOn medium item state) := by
  apply (gives_checkDeadline path).ok_bind
  cases item with
  | error error => exact .throw error
  | ok cluster =>
      refine (volume.gives_readCluster medium cluster).access_bind fun bytes _ => ?_
      exact (Device.Gives.report _).lift_bind (.access_pure _)

theorem size_of_decodedOn {item : Except Error UInt32} {state : Decoder × Array Entry}
    {step : ForInStep (Decoder × Array Entry)} (h : volume.decodedOn medium item state = .ok step) :
    step.value.2.size ≤ state.2.size + volume.clusterSize / 32 := by
  cases item with
  | error error => contradiction
  | ok cluster =>
      cases hbytes : volume.clusterOn medium cluster with
      | error error => simp [decodedOn, hbytes, bind, Except.bind] at h
      | ok bytes =>
          obtain rfl : _ = step := by
            simpa [decodedOn, hbytes, bind, Except.bind, pure, Except.pure] using h
          have hsize := state.1.size_entries_decode bytes
          rw [length_clusterOn hbytes] at hsize
          have hvalue : state.2.size + (state.1.decode bytes).entries.size ≤
              state.2.size + volume.clusterSize / 32 := by
            omega
          split
          · simpa using hvalue
          · simpa using hvalue

theorem size_of_forIn_decodedOn {path : List UInt32} {tail : List (Except Error UInt32)}
    (htail : tail = [] ∨ ∃ error, tail = [.error error]) {state final : Decoder × Array Entry}
    (h : forIn (path.map .ok ++ tail) state (volume.decodedOn medium) = .ok final) :
    final.2.size ≤ state.2.size + path.length * (volume.clusterSize / 32) := by
  induction path generalizing state with
  | nil =>
      rcases htail with rfl | ⟨error, rfl⟩
      · obtain rfl : state = final := by simpa [pure, Except.pure] using h
        omega
      · simp [decodedOn, bind, Except.bind] at h
  | cons cluster path ih =>
      rw [List.map_cons, List.cons_append, List.forIn_cons] at h
      cases hstep : volume.decodedOn medium (.ok cluster) state with
      | error error => simp [hstep, bind, Except.bind] at h
      | ok step =>
          have hsize := size_of_decodedOn hstep
          rw [List.length_cons, Nat.succ_mul]
          cases step with
          | done state' =>
              obtain rfl : state' = final := by
                simpa [hstep, bind, Except.bind, pure, Except.pure] using h
              rw [ForInStep.value_done] at hsize
              omega
          | yield state' =>
              have htail : forIn (path.map .ok ++ tail) state' (volume.decodedOn medium) =
                  .ok final := by
                simpa [hstep, bind, Except.bind] using h
              have hrest := ih htail
              rw [ForInStep.value_yield] at hsize
              omega

theorem gives_readDirectory {cluster : UInt32} {items : List (Except Error UInt32)}
    (hitems : Chain.Yields volume medium (.ofStart volume cluster) items)
    (hlength : items.length ≤ volume.chainBound) (path : String) :
    medium.Gives (volume.readDirectory none path cluster).run
      (do
        let (_, entries) ← forIn items (Decoder.initial, #[]) (volume.decodedOn medium)
        return entries.toList) :=
  (hitems.gives_forEach hlength (gives_decodeNext path)).access_bind fun _ _ =>
    (Device.Gives.report _).lift_bind (.access_pure _)

theorem decodedOn_medium (volume : Volume) (device : Device) :
    volume.decodedOn device.medium = volume.decodedOn device := by
  funext item state
  rw [decodedOn, decodedOn, clusterOn_medium]

theorem perform_readDir {session : Session} {cluster : UInt32}
    {items : List (Except Error UInt32)}
    (hitems : Chain.Yields volume session.device.medium (.ofStart volume cluster) items)
    (hlength : items.length ≤ volume.chainBound) :
    ((volume.readDir cluster).perform session).1 =
      (forIn items (Decoder.initial, #[]) (volume.decodedOn session.device)).map (·.2.toList) := by
  rw [readDir, (gives_readDirectory hitems hlength "").perform, decodedOn_medium]
  cases forIn items (Decoder.initial, #[]) (volume.decodedOn session.device) <;> rfl

theorem exists_gives_readDirectory (volume : Volume) (medium : Device) (cluster : UInt32) :
    ∃ result, (∀ path, medium.Gives (volume.readDirectory none path cluster).run result) ∧
      ∀ entries, result = .ok entries → volume.isDataCluster cluster ∧
        entries.length ≤ volume.clusterCount.toNat * (volume.clusterSize / 32) := by
  by_cases hdata : volume.isDataCluster cluster
  · obtain ⟨path, tail, hyields, hlength, htail⟩ := Chain.exists_yields volume medium cluster
    have hbound : (path.map Except.ok ++ tail).length ≤ volume.chainBound := by
      rw [List.length_append, List.length_map, Volume.chainBound]
      rcases htail with rfl | ⟨error, rfl⟩ <;> simp <;> omega
    refine ⟨_, gives_readDirectory hyields hbound, fun entries hentries => ⟨hdata, ?_⟩⟩
    cases hloop : forIn (path.map .ok ++ tail) (Decoder.initial, #[]) (volume.decodedOn medium) with
    | error error => simp [hloop, bind, Except.bind] at hentries
    | ok final =>
        have hsize := size_of_forIn_decodedOn htail hloop
        have hcount := Nat.mul_le_mul_right (volume.clusterSize / 32) hlength
        obtain rfl : final.2.toList = entries := by
          simpa [hloop, bind, Except.bind, pure, Except.pure] using hentries
        rw [Array.length_toList]
        simp only [List.size_toArray, List.length_nil] at hsize
        omega
  · have hbreaks : Chain.Breaks volume (volume.linkOn medium) cluster [] _ := .invalid hdata
    refine ⟨_, gives_readDirectory hbreaks.yields (by simp [Volume.chainBound]), ?_⟩
    intro entries hentries
    simp [decodedOn, bind, Except.bind] at hentries

theorem gives_readDirectory_readDir (volume : Volume) (session : Session) (path : String)
    (cluster : UInt32) :
    session.device.medium.Gives (volume.readDirectory none path cluster).run
      ((volume.readDir cluster).perform session).1 := by
  obtain ⟨result, hresult, -⟩ := exists_gives_readDirectory volume session.device.medium cluster
  rw [readDir, (hresult "").perform]
  exact hresult path

theorem length_readDir {volume : Volume} {session : Session} {cluster : UInt32}
    {entries : List Entry} (h : ((volume.readDir cluster).perform session).1 = .ok entries) :
    volume.isDataCluster cluster ∧
      entries.length ≤ volume.clusterCount.toNat * (volume.clusterSize / 32) := by
  obtain ⟨result, hresult, hbounds⟩ :=
    exists_gives_readDirectory volume session.device.medium cluster
  rw [readDir, (hresult "").perform] at h
  exact hbounds entries h

end Volume

end Fat32
