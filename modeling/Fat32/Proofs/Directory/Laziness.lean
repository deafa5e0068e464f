import Fat32.Proofs.Cluster.Beginning
import Fat32.Proofs.Directory.Chunks
import Fat32.Proofs.Directory.Reading
import Fat32.Proofs.Specimen
import Fat32.Proofs.Volume.Overwriting

/-!
# Where a directory ends

A directory is read up to the first cluster with an end mark, and not a byte counts that comes
after the mark. Up to there the contents of its clusters are decoded as one run of bytes, and the
first error on the way is the error of the whole.
-/

namespace Fat32

namespace Volume

variable {volume : Volume} {device : Device}

def endsIn (volume : Volume) (device : Device) (item : Except Error UInt32) : Bool :=
  (volume.contentOf device item).toOption.any Bytes.hasEnd

/-! ## Decoding what a chain yields -/

theorem decodedOn_eq_bind (item : Except Error UInt32) (state : Decoder × Array Entry) :
    volume.decodedOn device item state =
      (volume.contentOf device item).bind fun bytes =>
        let decoded := state.1.decode bytes
        let state := (decoded.decoder, state.2 ++ decoded.entries)
        .ok (if decoded.decoder.finished then .done state else .yield state) := by
  cases item with
  | error error => rfl
  | ok cluster =>
      simp only [decodedOn, contentOf]
      cases volume.clusterOn device cluster <;> rfl

/-- The decoder takes the clusters up to the first one with an end mark, as one run of bytes. -/
theorem forIn_decodedOn (h : volume.Accepted) {decoder : Decoder}
    (hdecoder : decoder.finished = false) (entries : Array Entry)
    (items : List (Except Error UInt32)) :
    (forIn items (decoder, entries) (volume.decodedOn device)).map (·.2.toList) =
      ((items.take (items.findIdx (volume.endsIn device) + 1)).mapM
        (volume.contentOf device)).map fun contents =>
          entries.toList ++ (decoder.decode contents.flatten).entries.toList := by
  induction items generalizing decoder entries with
  | nil => exact congrArg Except.ok (List.append_nil _).symm
  | cons item items ih =>
      rw [List.forIn_cons, List.findIdx_cons, List.take_succ_cons, List.mapM_cons,
        decodedOn_eq_bind, endsIn]
      cases hcontent : volume.contentOf device item with
      | error error => rfl
      | ok bytes =>
          have hfinished := decoder.finished_decode bytes
          rw [hdecoder, Bool.false_or] at hfinished
          cases hend : bytes.hasEnd with
          | true =>
              simp [bind, Except.bind, pure, Except.pure, Except.map, Except.toOption, hfinished,
                hend]
          | false =>
              have hdvd : 32 ∣ bytes.length := length_contentOf hcontent ▸ h.dvd_clusterSize
              have hrest := ih (hfinished.trans hend) (entries ++ (decoder.decode bytes).entries)
              simp only [Except.bind, Except.toOption, Option.any_some, hfinished, hend, cond_false,
                Bool.false_eq_true, if_false]
              refine Eq.trans hrest ?_
              cases (items.take (items.findIdx (volume.endsIn device) + 1)).mapM
                (volume.contentOf device) with
              | error error => rfl
              | ok contents =>
                  simp [bind, Except.bind, pure, Except.pure, Except.map,
                    Decoder.decode_append hdvd]

section

variable {front : Bytes} (hdvd : 32 ∣ front.length) (hend : front.hasEnd)
include hdvd hend

theorem forIn_decodedOn_of_hasEnd {last : UInt32} {back : Bytes}
    (hlast : volume.clusterOn device last = .ok (front ++ back))
    (rest : List (Except Error UInt32)) (state : Decoder × Array Entry) :
    forIn (.ok last :: rest) state (volume.decodedOn device) =
      .ok ((state.1.decode front).decoder, state.2 ++ (state.1.decode front).entries) := by
  have hfinished := state.1.finished_decode front
  rw [hend, Bool.or_true] at hfinished
  have hcontent : volume.contentOf device (.ok last) = .ok (front ++ back) := hlast
  rw [List.forIn_cons, decodedOn_eq_bind, hcontent]
  simp only [Except.bind, Decoder.decode_append_of_hasEnd hdvd hend, hfinished, if_true]
  rfl

theorem forIn_decodedOn_congr {other : Device} {before : List UInt32} {last : UInt32}
    {back backOther : Bytes}
    (hbefore : ∀ cluster ∈ before, volume.clusterOn other cluster = volume.clusterOn device cluster)
    (hlast : volume.clusterOn device last = .ok (front ++ back))
    (hother : volume.clusterOn other last = .ok (front ++ backOther))
    (rest restOther : List (Except Error UInt32)) (state : Decoder × Array Entry) :
    forIn (before.map .ok ++ .ok last :: restOther) state (volume.decodedOn other) =
      forIn (before.map .ok ++ .ok last :: rest) state (volume.decodedOn device) := by
  induction before generalizing state with
  | nil =>
      exact (forIn_decodedOn_of_hasEnd hdvd hend hother restOther state).trans
        (forIn_decodedOn_of_hasEnd hdvd hend hlast rest state).symm
  | cons cluster before ih =>
      have hcluster : volume.contentOf other (.ok cluster) =
          volume.contentOf device (.ok cluster) :=
        hbefore cluster (by simp)
      have hrest := ih fun cluster hmem => hbefore cluster (by simp [hmem])
      rw [List.map_cons, List.cons_append, List.cons_append, List.forIn_cons, List.forIn_cons,
        decodedOn_eq_bind, decodedOn_eq_bind, hcluster]
      simp only [hrest]

end

end Volume

/-! ## Where nothing counts -/

/-- The images agree on all that counts of a directory that ends with the slot `n` of the cluster
`last`, after the clusters `before`. -/
structure Image.AgreeUpTo (volume : Volume) (before : List UInt32) (last : UInt32) (n : Nat)
    (image other : Image) : Prop where
  size_eq : other.size = image.size
  entries : ∀ cluster ∈ before ++ [last],
    image.AgreeOn other (volume.entryStart cluster) (volume.entryStart cluster + 4)
  contents : ∀ cluster ∈ before, image.AgreeOn other (volume.contentStart cluster)
    (volume.contentStart cluster + volume.clusterSize)
  slots : image.AgreeOn other (volume.contentStart last)
    (volume.contentStart last + 32 * (n + 1))

/-- A byte comes after the slot `n` of the cluster `last`, or belongs to a cluster other than that
one and those in `before`: to its content, or to its entry in the active table. -/
inductive Volume.Beyond (volume : Volume) (before : List UInt32) (last : UInt32) (n i : Nat) : Prop
  | slots : volume.contentStart last + 32 * (n + 1) ≤ i →
      i < volume.contentStart last + volume.clusterSize → Beyond volume before last n i
  | content {cluster : UInt32} : volume.isDataCluster cluster → cluster ∉ before ++ [last] →
      volume.contentStart cluster ≤ i → i < volume.contentStart cluster + volume.clusterSize →
      Beyond volume before last n i
  | entry {cluster : UInt32} : cluster.toNat < volume.tableEntries → cluster ∉ before ++ [last] →
      volume.entryStart cluster ≤ i → i < volume.entryStart cluster + 4 →
      Beyond volume before last n i

namespace Volume

variable {volume : Volume} {before : List UInt32} {last : UInt32} {n i : Nat}

section

variable (h : volume.Accepted) (hdata : ∀ cluster ∈ before ++ [last], volume.isDataCluster cluster)
include h hdata

namespace Beyond

variable (hbeyond : volume.Beyond before last n i)
include hbeyond

theorem not_entry {cluster : UInt32} (hcluster : cluster ∈ before ++ [last])
    (hstart : volume.entryStart cluster ≤ i) : ¬ i < volume.entryStart cluster + 4 := by
  have hentry := h.toNat_lt_tableEntries (hdata cluster hcluster)
  cases hbeyond with
  | slots hlow _ =>
      have := h.entryStart_add_le_contentStart hentry (hdata last (by simp))
      omega
  | content hother _ hlow _ =>
      have := h.entryStart_add_le_contentStart hentry hother
      omega
  | @entry other _ hnew hlow hhigh =>
      have hne : cluster ≠ other := fun heq => hnew (heq ▸ hcluster)
      have := volume.entryStart_disjoint hne
      omega

theorem not_content (hnodup : (before ++ [last]).Nodup) {cluster : UInt32}
    (hcluster : cluster ∈ before) (hstart : volume.contentStart cluster ≤ i) :
    ¬ i < volume.contentStart cluster + volume.clusterSize := by
  have hmem : cluster ∈ before ++ [last] := List.mem_append_left [last] hcluster
  have hown := hdata cluster hmem
  cases hbeyond with
  | slots hlow hhigh =>
      have hne := (List.nodup_append.mp hnodup).2.2 cluster hcluster last (by simp)
      have := h.contentStart_disjoint hown (hdata last (by simp)) hne
      omega
  | content hother hnew hlow hhigh =>
      have := h.contentStart_disjoint hown hother fun heq => hnew (heq ▸ hmem)
      omega
  | entry hentry _ _ hhigh =>
      have := h.entryStart_add_le_contentStart hentry hown
      omega

theorem not_slots (hn : 32 * (n + 1) ≤ volume.clusterSize)
    (hstart : volume.contentStart last ≤ i) :
    ¬ i < volume.contentStart last + 32 * (n + 1) := by
  have hown := hdata last (by simp)
  cases hbeyond with
  | slots hlow _ => omega
  | content hother hnew hlow hhigh =>
      have := h.contentStart_disjoint hown hother fun heq => hnew (by simp [heq])
      omega
  | entry hentry _ _ hhigh =>
      have := h.entryStart_add_le_contentStart hentry hown
      omega

end Beyond

theorem agreeUpTo_of_beyond {image other : Image} (hnodup : (before ++ [last]).Nodup)
    (hn : 32 * (n + 1) ≤ volume.clusterSize) (hsize : other.size = image.size)
    (hchanges : ∀ i < image.size, image.byte i ≠ other.byte i → volume.Beyond before last n i) :
    image.AgreeUpTo volume before last n other := by
  refine ⟨hsize, fun cluster hcluster i hlow hhigh hi => ?_,
    fun cluster hcluster i hlow hhigh hi => ?_, fun i hlow hhigh hi => ?_⟩
  · by_contra hne
    exact (hchanges i hi hne).not_entry h hdata hcluster hlow hhigh
  · by_contra hne
    exact (hchanges i hi hne).not_content h hdata hnodup hcluster hlow hhigh
  · by_contra hne
    exact (hchanges i hi hne).not_slots h hdata hn hlow hhigh

end

/-! ## The end of a directory -/

def EndsAt (volume : Volume) (device : Device) (cluster : UInt32) (n : Nat) : Prop :=
  ∃ bytes raw, volume.clusterOn device cluster = .ok bytes ∧ bytes.slots[n]? = some raw ∧ raw.IsEnd

variable {session : Session} {cluster : UInt32}

theorem EndsAt.slot_le (h : volume.EndsAt session.device last n) :
    32 * (n + 1) ≤ volume.clusterSize := by
  obtain ⟨bytes, raw, hbytes, hraw, -⟩ := h
  obtain ⟨hn, -⟩ := List.getElem?_eq_some_iff.mp hraw
  rw [Bytes.length_slots, length_clusterOn hbytes] at hn
  omega

theorem readDir_overwrite {image : Image} (h : volume.Accepted)
    (hdvd : session.device.sectorSize ∣ volume.bytesPerSector.toNat)
    (hbegin : Chain.Begins volume (volume.linkOn session.device) cluster (before ++ [last]))
    (hends : volume.EndsAt session.device last n)
    (hagree : session.device.image.AgreeUpTo volume before last n image) :
    ((volume.readDir cluster).perform { session with device := session.device.overwrite image }).1 =
      ((volume.readDir cluster).perform session).1 := by
  have hlink : ∀ c ∈ before ++ [last],
      volume.linkOn (session.device.overwrite image) c = volume.linkOn session.device c :=
    fun c hc => linkOn_overwrite h hdvd hagree.size_eq (hbegin.data c hc) (hagree.entries c hc)
  have hbefore : ∀ c ∈ before,
      volume.clusterOn (session.device.overwrite image) c = volume.clusterOn session.device c :=
    fun c hc => clusterOn_overwrite h hdvd hagree.size_eq (hagree.contents c hc)
  have hslot := hends.slot_le
  obtain ⟨bytes, raw, hbytes, hraw, hend⟩ := hends
  obtain ⟨front, back, backOther, hfront, rfl, hother⟩ :=
    exists_front_of_clusterOn h hdvd hagree.size_eq hslot hagree.slots hbytes
  -- both chains begin with the clusters up to the end, and may go on in different ways
  have hbeginOther := hbegin.congr hlink
  rw [← linkOn_medium] at hbegin hbeginOther
  obtain ⟨rest, hyields, hlength⟩ := hbegin.exists_yields
  obtain ⟨restOther, hyieldsOther, hlengthOther⟩ := hbeginOther.exists_yields
  rw [perform_readDir hyieldsOther hlengthOther, perform_readDir hyields hlength, List.map_append,
    List.append_assoc, List.append_assoc]
  exact congrArg _ (forIn_decodedOn_congr ⟨n + 1, hfront⟩
    (Bytes.hasEnd_of_getElem? hfront hraw hend) hbefore hbytes hother rest restOther _)

/-- A directory is read as the contents of the clusters in its chain, put together up to the first
one with an end mark, or fails with the first error on the way there. It stays the same whatever
changes on the device after the mark, in other clusters or in the entries of the table for them. -/
theorem readDir_lazy {start : Session} {mounted : Mounted}
    (hmount : (mount.perform start).1 = .ok mounted)
    (hdevice : session.device.medium = start.device.medium) (cluster : UInt32) :
    let volume := mounted.volume
    let device := session.device
    (∃ items, Chain.Yields volume device.medium (.ofStart volume cluster) items) ∧
    ∀ items, Chain.Yields volume device.medium (.ofStart volume cluster) items →
      ((volume.readDir cluster).perform session).1 =
        ((items.take (items.findIdx (volume.endsIn device) + 1)).mapM
          (volume.contentOf device)).map (fun contents => Entry.ofBytes contents.flatten) ∧
      ∀ before last rest n image, items = before.map .ok ++ .ok last :: rest →
        volume.EndsAt device last n → image.size = device.image.size →
        (∀ i < device.image.size, device.image.byte i ≠ image.byte i →
          volume.Beyond before last n i) →
          ((volume.readDir cluster).perform { session with device := device.overwrite image }).1 =
            ((volume.readDir cluster).perform session).1 := by
  intro volume device
  obtain ⟨haccepted, hdvd⟩ := accepted_of_mount hmount
  rw [← Device.sectorSize_eq_of_medium hdevice] at hdvd
  obtain ⟨known, hknown, hlength, hbegins⟩ :=
    Chain.exists_yields_begins volume session.device.medium cluster
  refine ⟨⟨known, hknown⟩, fun items hitems => ?_⟩
  obtain rfl := hknown.unique hitems
  constructor
  · rw [perform_readDir hknown hlength]
    exact forIn_decodedOn haccepted rfl #[] known
  · intro before last rest n image hsplit hends hsize hchanges
    have hbegin := hbegins (before ++ [last]) (by simp) ⟨rest, by simp [hsplit]⟩
    rw [linkOn_medium] at hbegin
    refine readDir_overwrite haccepted hdvd hbegin hends ?_
    exact agreeUpTo_of_beyond haccepted hbegin.data hbegin.nodup hends.slot_le hsize hchanges

end Volume

namespace Specimen

/-- An image of the same volume, of which the root has a cluster of deleted slots before another
that holds its only entry. -/
def spread : Image :=
  let parts := [(1032, [3, 0, 0, 0, 0xFF, 0xFF, 0xFF, 0x0F]), (2048, slot 0x45 0x20 7 1)]
  let rest := Image.ofParts (18 * 256) (bootParts ++ hintParts ++ parts)
  { rest with byte i := if 1536 ≤ i ∧ i < 2048 then 0xE5 else rest.byte i }

/-- The image with other bytes after the end of the root in its second cluster, in the cluster 4
and in the entry of the cluster 5. -/
def scribbled : Image :=
  { spread with byte i :=
      if 2112 ≤ i ∧ i < 3072 ∨ 1044 ≤ i ∧ i < 1048 then 0xAA else spread.byte i }

theorem beyond_of_scribbled {i : Nat} (h : spread.byte i ≠ scribbled.byte i) :
    volume.Beyond [2] 3 1 i := by
  have hbytes : 2112 ≤ i ∧ i < 3072 ∨ 1044 ≤ i ∧ i < 1048 := by
    by_contra hnone
    exact h (if_neg hnone).symm
  rcases hbytes with ⟨hlow, hhigh⟩ | ⟨hlow, hhigh⟩
  · rcases Nat.lt_or_ge i 2560 with hlast | hlast
    · exact .slots hlow hlast
    · exact @Volume.Beyond.content volume [2] 3 1 i 4 (by decide) (by decide) hlast hhigh
  · exact @Volume.Beyond.entry volume [2] 3 1 i 5 (by decide) (by decide) hlow hhigh

/-- With other bytes beyond the end of its root the image still has the same entry there. -/
theorem readDir_lazy_spread :
    let session : Session := .start (.ofImage spread 256)
    let changed : Session := .start (.ofImage scribbled 256)
    let entries : List Entry := [⟨"E", "E", ⟨0x20⟩, 1, 7⟩]
    (mount.perform session).1 = .ok ⟨volume, some ⟨some 3, some 6⟩⟩ ∧
      ((volume.readDir 2).perform session).1 = .ok entries ∧
      ((volume.readDir 2).perform changed).1 = .ok entries := by
  intro session changed entries
  have hmount : (mount.perform session).1 = .ok ⟨volume, some ⟨some 3, some 6⟩⟩ :=
    eq_ok_of_toOption (by decide +kernel)
  have hchain : Chain.Resolves volume (volume.linkOn session.device) 2 [2, 3] := by
    have hdata : ∀ cluster ∈ [2, 3], volume.isDataCluster cluster :=
      List.forall_mem_cons.mpr ⟨by decide, List.forall_mem_singleton.mpr (by decide)⟩
    refine ⟨⟨rfl, hdata, ?_⟩, by decide, ?_⟩
    · exact .cons_cons (eq_ok_of_toOption (by decide +kernel)) (.singleton 3)
    · exact congrArg some (eq_ok_of_toOption (by decide +kernel))
  have hends : volume.EndsAt session.device 3 1 := by
    have hslot : ((volume.clusterOn session.device 3).toOption.bind fun bytes => bytes.slots[1]?) =
        some (.replicate 32 0) := by
      decide +kernel
    obtain ⟨bytes, hbytes, hraw⟩ := Option.bind_eq_some_iff.mp hslot
    exact ⟨bytes, _, eq_ok_of_toOption hbytes, hraw, by decide⟩
  have hyields := (Volume.linkOn_medium volume session.device ▸ hchain).yields
  have hlazy := (Volume.readDir_lazy hmount rfl 2).2 _ hyields
  have hentries : ((volume.readDir 2).perform session).1 = .ok entries :=
    hlazy.1.trans (eq_ok_of_toOption (by decide +kernel))
  have hsame := hlazy.2 [2] 3 [] 1 scribbled rfl hends rfl fun i _ hi => beyond_of_scribbled hi
  exact ⟨hmount, hentries, hsame.trans hentries⟩

end Specimen

end Fat32
