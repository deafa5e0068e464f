import Fat32.Proofs.Cluster.Beginning
import Fat32.Proofs.Cluster.Loop
import Fat32.Proofs.Specimen
import Fat32.Proofs.Volume.Answers
import Fat32.Proofs.Volume.Content
import Fat32.Proofs.Volume.Mounting
import Mathlib.Algebra.Order.Floor.Div

/-!
# Files

The content of a file is cut from the clusters of its chain, of which no more are read than its
size takes. Either it is all there, with just as many bytes as the entry of the file says, or it
is an error: a chain that ends too early, or the first thing on the way that cannot be read.
-/

namespace Fat32

namespace Volume

def clustersFor (volume : Volume) (size : Nat) : Nat := size ⌈/⌉ volume.clusterSize

/-- What the content of a file of `size` bytes is when its chain begins with the cluster `start`
and yields the items. -/
inductive ContentIs (volume : Volume) (device : Device) (start : UInt32) (size : Nat)
    (items : List (Except Error UInt32)) : Except Error Bytes → Prop
  /-- Nothing is read of a file without content. -/
  | empty : size = 0 → ContentIs volume device start size items (.ok [])
  /-- All clusters that the file takes can be read; the last one may hold more than its end. -/
  | whole {contents : List Bytes} : 0 < size →
      (items.take (volume.clustersFor size)).length = volume.clustersFor size →
      (items.take (volume.clustersFor size)).mapM (volume.contentOf device) = .ok contents →
      ContentIs volume device start size items (.ok (contents.flatten.take size))
  /-- All of the chain can be read, and it ends before the file does. -/
  | short {before : List UInt32} {last : UInt32} {contents : List Bytes} : 0 < size →
      items = (before ++ [last]).map .ok → items.length < volume.clustersFor size →
      items.mapM (volume.contentOf device) = .ok contents →
      ContentIs volume device start size items (.error (.corruptChain start last))
  /-- An item that is needed is an error, or a cluster that cannot be read. -/
  | failed {before after : List (Except Error UInt32)} {item : Except Error UInt32}
      {contents : List Bytes} {error : Error} : 0 < size →
      items = before ++ item :: after → before.length < volume.clustersFor size →
      before.mapM (volume.contentOf device) = .ok contents →
      volume.contentOf device item = .error error →
      ContentIs volume device start size items (.error error)

variable {volume : Volume} {device : Device} {start : UInt32} {size : Nat}
  {items : List (Except Error UInt32)}

/-! ## Gathering clusters -/

def gatheredOn (volume : Volume) (device : Device) (item : Except Error UInt32)
    (state : UInt32 × Array Bytes) : Except Error (ForInStep (UInt32 × Array Bytes)) := do
  let cluster ← item
  let bytes ← volume.clusterOn device cluster
  return .yield (cluster, state.2.push bytes)

theorem gatheredOn_medium (volume : Volume) (device : Device) :
    volume.gatheredOn device.medium = volume.gatheredOn device := by
  funext item state
  rw [gatheredOn, gatheredOn, clusterOn_medium]

theorem forIn_gatheredOn {α : Type} (items : List (Except Error UInt32))
    (state : UInt32 × Array Bytes) (next : UInt32 → List Bytes → Except Error α) :
    (do
      let (last, clusters) ← forIn items state (volume.gatheredOn device)
      next last clusters.toList) =
    (items.mapM (volume.contentOf device)).bind fun contents =>
      next ((Chain.clustersOf items).getLastD state.1) (state.2.toList ++ contents) := by
  induction items generalizing state with
  | nil => exact congrArg (next state.1) (List.append_nil _).symm
  | cons item items ih =>
      rw [List.forIn_cons, List.mapM_cons]
      cases item with
      | error error => rfl
      | ok cluster =>
          cases hbytes : volume.clusterOn device cluster with
          | error error => simp [gatheredOn, contentOf, hbytes, bind, Except.bind]
          | ok bytes =>
              have hrest := ih (cluster, state.2.push bytes)
              have hitem : volume.contentOf device (.ok cluster) = .ok bytes := hbytes
              have hlast : (Chain.clustersOf (.ok cluster :: items)).getLastD state.1 =
                  (Chain.clustersOf items).getLastD cluster :=
                List.getLastD_cons ..
              simp only [gatheredOn, hbytes, hitem, hlast, bind, Except.bind, pure, Except.pure]
              refine hrest.trans ?_
              cases items.mapM (volume.contentOf device) <;> simp [Except.bind]

/-! ## Cutting the content -/

def cutFrom (start : UInt32) (size : Nat) (last : UInt32) (contents : List Bytes) :
    Except Error Bytes :=
  if (contents.flatten.take size).length < size then .error (.corruptChain start last)
  else .ok (contents.flatten.take size)

theorem gives_readContent {medium : Device} (hsize : 0 < size)
    (hitems : Chain.Yields volume medium (.ofStart volume start) items) :
    medium.Gives (volume.readContent start size).run
      (do
        let (last, clusters) ← forIn (items.take (volume.clustersFor size)) (start, #[])
          (volume.gatheredOn medium)
        cutFrom start size last clusters.toList) := by
  rw [readContent, if_neg (Nat.ne_of_gt hsize)]
  refine (hitems.gives_forEach_take (fun item state => ?_) _ _).access_bind fun read _ => ?_
  · cases item with
    | error error => exact .throw error
    | ok cluster =>
        refine (volume.gives_readCluster medium cluster).access_bind fun bytes _ => ?_
        exact .access_pure _
  · simp only [cutFrom]
    split
    · exact .throw _
    · exact .access_pure _

theorem perform_readContent {session : Session} (hsize : 0 < size)
    (hitems : Chain.Yields volume session.device.medium (.ofStart volume start) items) :
    ((volume.readContent start size).perform session).1 =
      ((items.take (volume.clustersFor size)).mapM (volume.contentOf session.device)).bind
        (cutFrom start size
          ((Chain.clustersOf (items.take (volume.clustersFor size))).getLastD start)) := by
  rw [(gives_readContent hsize hitems).perform, gatheredOn_medium]
  exact forIn_gatheredOn _ _ _

theorem length_readContent {session : Session} {content : Bytes}
    (h : ((volume.readContent start size).perform session).1 = .ok content) :
    content.length = size := by
  rw [readContent] at h
  split at h
  case isTrue hzero =>
    obtain rfl := Except.ok.inj h
    exact hzero.symm
  case isFalse =>
    obtain ⟨⟨last, clusters⟩, later, -, h⟩ := Access.exists_of_perform_bind_eq_ok h
    dsimp only at h
    split at h
    case isTrue => contradiction
    case isFalse hlength =>
      obtain rfl := Except.ok.inj h
      rw [List.length_take] at hlength ⊢
      omega

/-! ## Clusters and sizes -/

theorem le_clustersFor_mul (h : volume.Accepted) (size : Nat) :
    size ≤ volume.clustersFor size * volume.clusterSize := by
  rw [Nat.mul_comm]
  exact (ceilDiv_le_iff_le_mul h.clusterSize_pos).mp (Nat.le_refl _)

theorem mul_lt_of_lt_clustersFor (h : volume.Accepted) {count : Nat}
    (hcount : count < volume.clustersFor size) : count * volume.clusterSize < size := by
  rw [Nat.mul_comm, ← Nat.not_le]
  exact fun hle => Nat.not_le.mpr hcount ((ceilDiv_le_iff_le_mul h.clusterSize_pos).mpr hle)

theorem exists_clusters_of_mapM {contents : List Bytes}
    (h : items.mapM (volume.contentOf device) = .ok contents) :
    ∃ clusters : List UInt32, items = clusters.map .ok := by
  have hcontents := forall₂_of_mapM h
  clear h
  induction hcontents with
  | nil => exact ⟨[], rfl⟩
  | cons hcontent _ ih =>
      obtain ⟨cluster, rfl, -⟩ := exists_of_bind_eq_ok hcontent
      obtain ⟨clusters, rfl⟩ := ih
      exact ⟨cluster :: clusters, rfl⟩

theorem clustersOf_map_ok (clusters : List UInt32) :
    Chain.clustersOf (clusters.map .ok) = clusters := by
  rw [Chain.clustersOf, List.filterMap_map]
  exact List.filterMap_some

/-! ## All that a content can be -/

theorem ContentIs.perform_readContent {session : Session} {result : Except Error Bytes}
    (h : volume.Accepted)
    (hitems : Chain.Yields volume session.device.medium (.ofStart volume start) items)
    (hcontent : volume.ContentIs session.device start size items result) :
    ((volume.readContent start size).perform session).1 = result := by
  cases hcontent with
  | empty hsize =>
      rw [readContent, if_pos hsize]
      rfl
  | whole hsize hcount hcontents =>
      have hlength := length_flatten_of_mapM hcontents
      have hle := le_clustersFor_mul h size
      rw [hcount] at hlength
      rw [Volume.perform_readContent hsize hitems, hcontents]
      refine if_neg ?_
      rw [List.length_take]
      omega
  | @short before last contents hsize hclusters hcount hcontents =>
      have hlength := length_flatten_of_mapM hcontents
      have hlt := mul_lt_of_lt_clustersFor h hcount
      have hlast : (Chain.clustersOf items).getLastD start = last := by
        rw [hclusters, clustersOf_map_ok, List.getLastD_concat]
      rw [Volume.perform_readContent hsize hitems, List.take_of_length_le hcount.le, hcontents,
        hlast]
      refine if_pos ?_
      rw [List.length_take]
      omega
  | @failed before after item contents error hsize hsplit hcount hcontents hitem =>
      have herror : (items.take (volume.clustersFor size)).mapM
          (volume.contentOf session.device) = .error error := by
        obtain ⟨more, hmore⟩ := Nat.exists_eq_add_of_lt hcount
        rw [hsplit, hmore, Nat.add_assoc, List.take_length_add_append, List.take_succ_cons]
        exact mapM_eq_error_iff.mpr ⟨_, _, _, _, rfl, hcontents, hitem⟩
      rw [Volume.perform_readContent hsize hitems, herror]
      rfl

theorem exists_contentIs (volume : Volume) (device : Device) (start : UInt32) (size : Nat)
    (hne : items ≠ []) : ∃ result, volume.ContentIs device start size items result := by
  rcases Nat.eq_zero_or_pos size with hzero | hsize
  · exact ⟨_, .empty hzero⟩
  cases hcontents : (items.take (volume.clustersFor size)).mapM (volume.contentOf device) with
  | error error =>
      obtain ⟨before, item, after, contents, hsplit, hbefore, hitem⟩ :=
        mapM_eq_error_iff.mp hcontents
      have hcount : before.length < volume.clustersFor size := by
        have hlength := congrArg List.length hsplit
        rw [List.length_take, List.length_append, List.length_cons] at hlength
        omega
      have hitems : items = before ++ item :: (after ++ items.drop (volume.clustersFor size)) := by
        rw [← List.cons_append, ← List.append_assoc, ← hsplit, List.take_append_drop]
      exact ⟨_, .failed hsize hitems hcount hbefore hitem⟩
  | ok contents =>
      rcases Nat.lt_or_ge items.length (volume.clustersFor size) with hlt | hle
      · rw [List.take_of_length_le hlt.le] at hcontents
        obtain ⟨clusters, rfl⟩ := exists_clusters_of_mapM hcontents
        obtain ⟨before, last, rfl⟩ := (List.eq_nil_or_concat' clusters).resolve_left
          fun hnil => hne (by rw [hnil]; rfl)
        exact ⟨_, .short hsize rfl hlt hcontents⟩
      · exact ⟨_, .whole hsize (by rw [List.length_take, Nat.min_eq_left hle]) hcontents⟩

theorem perform_readContent_iff {session : Session} {result : Except Error Bytes}
    (h : volume.Accepted)
    (hitems : Chain.Yields volume session.device.medium (.ofStart volume start) items) :
    ((volume.readContent start size).perform session).1 = result ↔
      volume.ContentIs session.device start size items result := by
  refine ⟨fun hresult => ?_, fun hcontent => hcontent.perform_readContent h hitems⟩
  obtain ⟨known, hknown⟩ := exists_contentIs volume session.device start size hitems.ne_nil
  rwa [← hresult, hknown.perform_readContent h hitems]

/-! ## Files at a path -/

theorem length_fileContent {session : Session} {path : String} {entry : Entry} {content : Bytes}
    (hentry : ((volume.lookup path).perform session).1 = .ok entry)
    (h : ((volume.fileContent path).perform session).1 = .ok content) :
    content.length = entry.size.toNat := by
  rw [fileContent] at h
  obtain ⟨found, later, hfound, h⟩ := Access.exists_of_perform_bind_eq_ok h
  rw [hfound] at hentry
  obtain rfl := Except.ok.inj hentry
  split at h
  case isTrue => contradiction
  case isFalse => exact length_readContent h

theorem perform_fileContent {session : Session} {path : String} {entry : Entry}
    (hlookup : ((volume.lookup path).perform session).1 = .ok entry)
    (hfile : ¬ entry.isDirectory) :
    ((volume.fileContent path).perform session).1 =
      ((volume.readContent entry.firstCluster entry.size.toNat).perform session).1 := by
  have hserved := volume.servedAlike_self session.device.medium
  have hentry := (coupled_lookup Error.sameness_eq hserved path).gives
  have hcontent := (coupled_readContent Error.sameness_eq hserved entry.firstCluster
    entry.size.toNat).gives
  rw [hlookup] at hentry
  refine Device.Gives.perform (hentry.ok_bind ?_)
  rw [if_neg hfile]
  exact hcontent

/-- The content of a file is cut from the clusters of its chain and has just the size that its
entry gives, or there is none for the one reason that the chain and its clusters give. -/
theorem fileContent_exact {start session : Session} {mounted : Mounted} {path : String}
    {entry : Entry} (hmount : (mount.perform start).1 = .ok mounted)
    (hlookup : ((mounted.volume.lookup path).perform session).1 = .ok entry)
    (hfile : ¬ entry.isDirectory) :
    let volume := mounted.volume
    let content := ((volume.fileContent path).perform session).1
    (∃ items, Chain.Yields volume session.device.medium (.ofStart volume entry.firstCluster)
      items) ∧
    (∀ items, Chain.Yields volume session.device.medium (.ofStart volume entry.firstCluster)
        items →
      ∀ result, content = result ↔
        volume.ContentIs session.device entry.firstCluster entry.size.toNat items result) ∧
    ∀ bytes, content = .ok bytes → bytes.length = entry.size.toNat := by
  intro volume content
  obtain ⟨clusters, tail, hyields, -⟩ :=
    Chain.exists_yields volume session.device.medium entry.firstCluster
  refine ⟨⟨_, hyields⟩, fun items hitems result => ?_, fun bytes => length_fileContent hlookup⟩
  rw [show content = _ from perform_fileContent hlookup hfile]
  exact perform_readContent_iff (accepted_of_mount hmount).1 hitems

end Volume

namespace Specimen

/-- An image of the same volume with two files, both in the chain of the clusters 4 and 5, which
is too short for the second. Its numbers lie across the two clusters. -/
def filed : Image :=
  let sizes : List (Nat × Bytes) := [(1565, [2]), (1597, [4])]
  let parts := [(1040, [5, 0, 0, 0]), (1536, slot 0x43 0x20 4 5 ++ slot 0x44 0x20 4 1),
    (3071, [1, 2, 3, 4, 5, 6, 7])]
  .ofParts (18 * 256) (bootParts ++ hintParts ++ sizes ++ parts ++ tableParts)

theorem resolves_filed :
    Chain.Resolves volume (volume.linkOn (.ofImage filed 256)) 4 [4, 5] := by
  have hdata : ∀ cluster ∈ [4, 5], volume.isDataCluster cluster :=
    List.forall_mem_cons.mpr ⟨by decide, List.forall_mem_singleton.mpr (by decide)⟩
  refine ⟨⟨rfl, hdata, ?_⟩, by decide, ?_⟩
  · exact .cons_cons (eq_ok_of_toOption (by decide +kernel)) (.singleton 5)
  · exact congrArg some (eq_ok_of_toOption (by decide +kernel))

theorem contents_filed : [.ok 4, .ok 5].mapM (volume.contentOf (.ofImage filed 256)) =
    .ok [filed.slice 2560 512, filed.slice 3072 512] := by
  have hover : (Device.ofImage filed 256).Over filed := ⟨.memory, by decide, by decide⟩
  have hfits : ∀ cluster ∈ [4, 5],
      volume.contentStart cluster + volume.clusterSize ≤ filed.size :=
    List.forall_mem_cons.mpr ⟨by decide, List.forall_mem_singleton.mpr (by decide)⟩
  have hcontent (cluster : UInt32) (hcluster : cluster ∈ [4, 5]) :
      volume.contentOf (.ofImage filed 256) (.ok cluster) =
        .ok (filed.slice (volume.contentStart cluster) volume.clusterSize) :=
    hover.clusterOn_eq (by decide) (resolves_filed.data cluster hcluster) (hfits cluster hcluster)
  rw [List.mapM_cons, List.mapM_cons, hcontent 4 (by simp), hcontent 5 (by simp)]
  rfl

/-- Of the files on the image one is read up to its size, and the other is not read at all. -/
theorem fileContent_exact_filed :
    let session : Session := .start (.ofImage filed 256)
    (mount.perform session).1 = .ok ⟨volume, some ⟨some 3, some 6⟩⟩ ∧
      ((volume.lookup "/C").perform session).1 = .ok ⟨"C", "C", ⟨0x20⟩, 517, 4⟩ ∧
      ((volume.fileContent "/C").perform session).1 = .ok (filed.slice 2560 517) ∧
      (filed.slice 2560 517).drop 511 = [1, 2, 3, 4, 5, 6] ∧
      ((volume.lookup "/D").perform session).1 = .ok ⟨"D", "D", ⟨0x20⟩, 1025, 4⟩ ∧
      ((volume.fileContent "/D").perform session).1 = .error (.corruptChain 4 5) := by
  intro session
  have hmount : (mount.perform session).1 = .ok ⟨volume, some ⟨some 3, some 6⟩⟩ :=
    eq_ok_of_toOption (by decide +kernel)
  have hyields := (Volume.linkOn_medium volume session.device ▸ resolves_filed).yields
  have hwhole : ((volume.lookup "/C").perform session).1 = .ok ⟨"C", "C", ⟨0x20⟩, 517, 4⟩ :=
    eq_ok_of_toOption (by decide +kernel)
  have hshort : ((volume.lookup "/D").perform session).1 = .ok ⟨"D", "D", ⟨0x20⟩, 1025, 4⟩ :=
    eq_ok_of_toOption (by decide +kernel)
  have hfirst : volume.ContentIs session.device 4 517 ([4, 5].map .ok)
      (.ok (filed.slice 2560 517)) := by
    have hboth : [filed.slice 2560 512, filed.slice 3072 512].flatten =
        filed.slice 2560 517 ++ filed.slice 3077 507 := by
      rw [filed.slice_append 2560 517 507, ← filed.slice_append 2560 512 512]
      simp
    have hcut : (filed.slice 2560 517 ++ filed.slice 3077 507).take 517 = filed.slice 2560 517 :=
      List.take_left' (filed.length_slice 2560 517)
    rw [← hboth] at hcut
    exact hcut ▸ .whole (by decide) rfl contents_filed
  have hsecond : volume.ContentIs session.device 4 1025 ([4, 5].map .ok)
      (.error (.corruptChain 4 5)) := by
    have hclusters : ([4, 5].map .ok : List (Except Error UInt32)) =
        ([4] ++ [5] : List UInt32).map .ok :=
      rfl
    exact .short (by decide) hclusters (by decide) contents_filed
  exact ⟨hmount, hwhole,
    ((Volume.fileContent_exact hmount hwhole (by decide)).2.1 _ hyields _).mpr hfirst,
    by decide +kernel, hshort,
    ((Volume.fileContent_exact hmount hshort (by decide)).2.1 _ hyields _).mpr hsecond⟩

end Specimen

end Fat32
