import Fat32.Proofs.Coupling
import Fat32.Tree.Survey
import Fat32.Volume.Lookup

/-!
# Answers about a volume

Everything that is asked about a volume rests on the sectors of its active table and on its data
clusters. Two media that serve these alike give like answers to every call, in whatever order
the calls are made.
-/

namespace Fat32

/-- A sameness of errors under which an error that a survey may skip is like no other. -/
structure Error.Sameness (same : Error → Error → Prop) : Prop where
  refl : ∀ error, same error error
  eq_of_local : ∀ {error other}, same error other →
    error.isSubtreeLocal ∨ other.isSubtreeLocal → error = other

theorem Error.sameness_eq : Sameness (· = ·) := ⟨fun _ => rfl, fun h _ => h⟩

structure Volume.ServedAlike (volume : Volume) (same : Error → Error → Prop)
    (first second : Device) : Prop where
  entries : ∀ cluster, volume.isDataCluster cluster →
    Alike same
      (volume.sectorsOn first (volume.entrySector cluster) 1 volume.bytesPerSector.toNat)
      (volume.sectorsOn second (volume.entrySector cluster) 1 volume.bytesPerSector.toNat)
  clusters : ∀ cluster, volume.isDataCluster cluster → ∀ length,
    Alike same
      (volume.sectorsOn first (volume.clusterSector cluster) volume.sectorsPerCluster.toNat length)
      (volume.sectorsOn second (volume.clusterSector cluster) volume.sectorsPerCluster.toNat length)

theorem Volume.servedAlike_self (volume : Volume) (medium : Device) :
    volume.ServedAlike (· = ·) medium medium :=
  ⟨fun _ _ => .refl (fun _ => rfl) _, fun _ _ _ => .refl (fun _ => rfl) _⟩

variable {volume : Volume} {first second : Device} {same : Error → Error → Prop}

theorem Volume.coupled_readSectors {sector : UInt32} {count length : Nat}
    (h : Alike same (volume.sectorsOn first sector count length)
      (volume.sectorsOn second sector count length)) :
    (volume.readSectors sector count length).AlikeOn same first second :=
  .of_gives (volume.gives_readSectors first sector count length)
    (volume.gives_readSectors second sector count length) h

theorem Session.coupled_checkDeadline (path : String) :
    (checkDeadline none path).AlikeOn same first second :=
  fun _ _ hs ht => ⟨.ok (), hs, ht⟩

theorem Table.coupled_sector {number : UInt32}
    (h : Alike same (volume.sectorsOn first number 1 volume.bytesPerSector.toNat)
      (volume.sectorsOn second number 1 volume.bytesPerSector.toNat)) (table : Table) :
    Coupled first second (AlikeBeside same) (table.sector volume number)
      (table.sector volume number) := by
  rw [sector]
  cases table.kept? number with
  | some bytes => exact .pure ⟨.ok bytes, rfl⟩
  | none =>
      refine (Volume.coupled_readSectors h).bind fun result other hresult => ?_
      cases hresult with
      | ok bytes => exact .pure ⟨.ok bytes, rfl⟩
      | error herror => exact .pure ⟨.error herror, rfl⟩

/-! ## The table -/

section

variable (hsame : Error.Sameness same) (h : volume.ServedAlike same first second)
include hsame h

namespace Table

theorem coupled_link (table : Table) (cluster : UInt32) :
    Coupled first second (AlikeBeside same) (table.link volume cluster)
      (table.link volume cluster) := by
  rw [link]
  split
  case isTrue hdata =>
    refine (coupled_sector (h.entries cluster hdata) table).bind ?_
    rintro ⟨bytes, after⟩ ⟨otherBytes, _⟩ ⟨hbytes, rfl⟩
    exact .pure ⟨hbytes.map _, rfl⟩
  case isFalse => exact .pure ⟨.error (hsame.refl _), rfl⟩

end Table

/-! ## Chains -/

namespace Chain

theorem coupled_advance (chain : Chain) :
    Coupled first second
      (fun call other => Option.Rel (Alike same) call.1 other.1 ∧ call.2 = other.2)
      (chain.advance volume) (chain.advance volume) := by
  rw [advance]
  cases chain.refused with
  | some error => exact .pure ⟨.some (.error (hsame.refl error)), rfl⟩
  | none =>
      cases chain.due with
      | none => exact .pure ⟨.none, rfl⟩
      | some current =>
          dsimp only
          split
          · exact .pure ⟨.some (.error (hsame.refl _)), rfl⟩
          · refine (Table.coupled_link hsame h chain.table current).bind ?_
            rintro ⟨link, table⟩ ⟨otherLink, _⟩ ⟨hlink, rfl⟩
            have hfollow := hlink.bind fun link =>
              Alike.refl hsame.refl (follow volume chain.start current link)
            dsimp only at hfollow ⊢
            generalize link.bind (follow volume chain.start current) = followed at hfollow ⊢
            generalize otherLink.bind (follow volume chain.start current) = other at hfollow ⊢
            cases hfollow with
            | ok next =>
                exact (Coupled.report _ _).bind fun _ _ _ => .pure ⟨.some (.ok current), rfl⟩
            | error herror => exact .pure ⟨.some (.error herror), rfl⟩

theorem coupled_forEach {σ : Type}
    {visit : Except Error UInt32 → σ → Access (ForInStep σ)}
    (hvisit : ∀ {item other} state, Alike same item other →
      Coupled first second (Alike same) (visit item state).run (visit other state).run)
    (limit : Nat) (chain : Chain) (state : σ) :
    (chain.forEach volume visit limit state).AlikeOn same first second := by
  induction limit generalizing chain state with
  | zero => exact .access_pure state
  | succ limit ih =>
      refine (coupled_advance hsame h chain).lift_bind ?_
      rintro ⟨item?, next⟩ ⟨other?, _⟩ ⟨hitem, rfl⟩
      cases hitem with
      | none => exact .access_pure state
      | some hitem =>
          refine (hvisit state hitem).access_bind fun step => ?_
          cases step with
          | done state => exact .access_pure state
          | yield state => exact ih next state

end Chain

namespace Volume

theorem coupled_clusterChain (table : Table) (start : UInt32) :
    (table.clusterChain volume start).AlikeOn same first second := by
  refine (Chain.coupled_forEach hsame h (fun state hitem => ?_) _ _ _).access_bind
    fun clusters => .access_pure clusters.toList
  exact .of_except hitem fun cluster => .access_pure _

/-! ## Clusters and directories -/

theorem coupled_readClusterInto (cluster : UInt32) (length : Nat) :
    (volume.readClusterInto cluster length).AlikeOn same first second := by
  rw [readClusterInto]
  split
  case isTrue hdata => exact coupled_readSectors (h.clusters cluster hdata length)
  case isFalse => exact .throw (hsame.refl _)

section

variable {deadline : Option Nat} {path : String}
  (hdeadline : (Session.checkDeadline deadline path).AlikeOn same first second)
include hdeadline

theorem coupled_decodeNext {item other : Except Error UInt32} (state : Decoder × Array Entry)
    (hitem : Alike same item other) :
    Coupled first second (Alike same) (volume.decodeNext deadline path item state).run
      (volume.decodeNext deadline path other state).run := by
  refine hdeadline.access_bind fun _ => ?_
  refine .of_except hitem fun cluster => ?_
  refine (coupled_readClusterInto hsame h cluster volume.clusterSize).access_bind fun bytes => ?_
  exact (Coupled.report _ _).lift_bind fun _ _ _ => .access_pure _

theorem coupled_readDirectory (cluster : UInt32) :
    (volume.readDirectory deadline path cluster).AlikeOn same first second :=
  (Chain.coupled_forEach hsame h (coupled_decodeNext hsame h hdeadline) _ _ _).access_bind
    fun (_, entries) => (Coupled.report _ _).lift_bind fun _ _ _ => .access_pure entries.toList

end

theorem coupled_readDir (cluster : UInt32) : (volume.readDir cluster).AlikeOn same first second :=
  coupled_readDirectory hsame h (Session.coupled_checkDeadline "") cluster

/-! ## Paths -/

theorem coupled_descend (here : String × Entry) (name : String) :
    (volume.descend here name).AlikeOn same first second := by
  obtain ⟨parent, entry⟩ := here
  simp only [descend]
  split
  · exact .throw (hsame.refl _)
  · refine (coupled_readDir hsame h entry.firstCluster).access_bind fun entries => ?_
    cases select? entries name with
    | none => exact .throw (hsame.refl _)
    | some found => exact .access_pure _

theorem coupled_foldlM_descend (names : List String) (here : String × Entry) :
    Access.AlikeOn same first second (names.foldlM volume.descend here) := by
  induction names generalizing here with
  | nil => exact .access_pure here
  | cons name names ih =>
      rw [List.foldlM_cons]
      exact (coupled_descend hsame h here name).access_bind ih

theorem coupled_lookup (path : String) :
    (volume.lookup path).AlikeOn same first second :=
  (coupled_foldlM_descend hsame h _ _).access_bind fun (_, entry) => .access_pure entry

theorem coupled_listDir (path : String) :
    (volume.listDir path).AlikeOn same first second := by
  refine (coupled_lookup hsame h path).access_bind fun entry => ?_
  split
  · exact .throw (hsame.refl _)
  · exact (coupled_readDir hsame h entry.firstCluster).access_bind
      fun entries => .access_pure _

theorem coupled_readContent (start : UInt32) (size : Nat) :
    (volume.readContent start size).AlikeOn same first second := by
  rw [readContent]
  split
  · exact .access_pure []
  · refine (Chain.coupled_forEach hsame h (fun state hitem => ?_) _ _ _).access_bind ?_
    · exact .of_except hitem fun cluster =>
        (coupled_readClusterInto hsame h cluster volume.clusterSize).access_bind
          fun bytes => .access_pure _
    · rintro ⟨last, clusters⟩
      dsimp only
      split
      · exact .throw (hsame.refl _)
      · exact .access_pure _

theorem coupled_fileContent (path : String) :
    (volume.fileContent path).AlikeOn same first second := by
  refine (coupled_lookup hsame h path).access_bind fun entry => ?_
  split
  · exact .throw (hsame.refl _)
  · exact coupled_readContent hsame h entry.firstCluster entry.size.toNat

end Volume

/-! ## Surveys -/

section

variable {options : Survey.Options} (hdeadline : ∀ path,
  (Session.checkDeadline options.deadline path).AlikeOn same first second)
include hdeadline

namespace Survey

theorem coupled_visit (reached : Std.TreeSet UInt32) (task : Task) :
    Coupled first second (AlikeBeside same) (visit volume options reached task)
      (visit volume options reached task) := by
  rw [visit]
  cases task.refusal? options with
  | some error => exact .pure ⟨.error (hsame.refl error), rfl⟩
  | none =>
      dsimp only
      split
      · exact (Coupled.report _ _).bind fun _ _ _ => .pure ⟨.error (hsame.refl _), rfl⟩
      · exact (Volume.coupled_readDirectory hsame h (hdeadline task.path) task.cluster).bind
          fun _ _ hentries => .pure ⟨hentries, rfl⟩

theorem coupled_step (task : Task) (rest : List Task) (progress : Progress) :
    (step volume options task rest progress).AlikeOn same first second := by
  refine (coupled_visit hsame h hdeadline progress.reached task).lift_bind ?_
  rintro ⟨entries, reached⟩ ⟨otherEntries, _⟩ ⟨hentries, rfl⟩
  cases hentries with
  | ok entries => exact (Coupled.report _ _).lift_bind fun _ _ _ => .access_pure _
  | @error error other herror =>
      by_cases hlocal : error.isSubtreeLocal ∨ other.isSubtreeLocal
      · -- an error that may be skipped is the same one on both media
        obtain rfl := hsame.eq_of_local herror hlocal
        dsimp only
        split
        · exact (Coupled.report _ _).lift_bind fun _ _ _ => .access_pure _
        · exact .throw (hsame.refl _)
      · dsimp only
        rw [if_neg fun hskip => hlocal (.inl hskip.2.1),
          if_neg fun hskip => hlocal (.inr hskip.2.1)]
        exact .throw herror

theorem coupled_run (limit : Nat) (progress : Progress) :
    (run volume options limit progress).AlikeOn same first second := by
  induction limit generalizing progress with
  | zero => exact .access_pure progress
  | succ limit ih =>
      rw [run]
      cases progress.agenda with
      | nil => exact .access_pure progress
      | cons task rest => exact (coupled_step hsame h hdeadline task rest progress).access_bind ih

end Survey

theorem Volume.coupled_survey (cluster : UInt32) :
    (volume.survey options cluster).AlikeOn same first second :=
  (Survey.coupled_run hsame h hdeadline _ _).access_bind fun _ => .access_pure _

end

end

/-! ## All calls -/

/-- Every call about the volume comes to like results on both media. A call on a reader of the
table leaves equal readers besides, which may be asked again; a cluster may be read into a
buffer of any length. -/
structure Volume.AnswersAlike (volume : Volume) (same : Error → Error → Prop)
    (first second : Device) : Prop where
  link : ∀ (table : Table) cluster, Coupled first second (AlikeBeside same)
    (table.link volume cluster) (table.link volume cluster)
  clusterChain : ∀ (table : Table) start,
    (table.clusterChain volume start).AlikeOn same first second
  readClusterInto : ∀ cluster length,
    (volume.readClusterInto cluster length).AlikeOn same first second
  readDir : ∀ cluster, (volume.readDir cluster).AlikeOn same first second
  lookup : ∀ path, (volume.lookup path).AlikeOn same first second
  listDir : ∀ path, (volume.listDir path).AlikeOn same first second
  fileContent : ∀ path, (volume.fileContent path).AlikeOn same first second
  survey : ∀ maxDepth policy cluster,
    (volume.survey ⟨maxDepth, policy, none⟩ cluster).AlikeOn same first second

theorem Volume.ServedAlike.answersAlike (hsame : Error.Sameness same)
    (h : volume.ServedAlike same first second) : volume.AnswersAlike same first second where
  link := Table.coupled_link hsame h
  clusterChain := coupled_clusterChain hsame h
  readClusterInto := coupled_readClusterInto hsame h
  readDir := coupled_readDir hsame h
  lookup := coupled_lookup hsame h
  listDir := coupled_listDir hsame h
  fileContent := coupled_fileContent hsame h
  survey _ _ := coupled_survey hsame h Session.coupled_checkDeadline

end Fat32
