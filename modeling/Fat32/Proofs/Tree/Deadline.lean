import Fat32.Proofs.Tree.Termination
import Fat32.Proofs.Volume.Reads

/-!
# Deadlines

What a survey still does once its deadline is reached. Before each item of a chain the deadline is
looked at, so at most one more sector of the table is read, and that only on the way to calling
the survey off. What needs no further read may still come to its end.
-/

namespace Fat32

theorem Device.length_reads (device : Device) : device.reads.length = device.readCount := by
  rcases device with ⟨size, image | stream⟩
  · rfl
  · exact Array.length_toList

theorem Transfer.outcome_eq_error {transfer : Transfer} {error : Error}
    (h : transfer.result = .error error) : transfer.outcome = .error error := by
  rcases transfer with ⟨failure | done, copied⟩
  · exact congrArg _ (Except.error.inj h)
  · contradiction

/-! ## Single reads -/

structure Session.ReadsOne (allowed : StreamRead → Prop) (session later : Session) : Prop where
  sectorSize_eq : later.device.sectorSize = session.device.sectorSize
  reads_eq : later.device.reads = session.device.reads ∨
    ∃ read, allowed read ∧ later.device.reads = session.device.reads ++ [read]

namespace Session.ReadsOne

variable {allowed other : StreamRead → Prop} {session later : Session}

theorem refl (session : Session) : ReadsOne allowed session session := ⟨rfl, .inl rfl⟩

theorem imp (h : ReadsOne allowed session later) (hallowed : ∀ read, allowed read → other read) :
    ReadsOne other session later :=
  ⟨h.sectorSize_eq, h.reads_eq.imp_right fun ⟨read, hread, hreads⟩ =>
    ⟨read, hallowed read hread, hreads⟩⟩

theorem reads_prefix (h : ReadsOne allowed session later) :
    session.device.reads <+: later.device.reads := by
  rcases h.reads_eq with hreads | ⟨read, -, hreads⟩
  · rw [hreads]
  · exact ⟨_, hreads.symm⟩

theorem readCount_le (h : ReadsOne allowed session later) :
    later.device.readCount ≤ session.device.readCount + 1 := by
  rw [← Device.length_reads, ← Device.length_reads]
  rcases h.reads_eq with hreads | ⟨read, -, hreads⟩ <;> simp [hreads]

end Session.ReadsOne

section

variable {volume : Volume} {session : Session}

theorem Volume.readsOne_readSectors
    (hdvd : session.device.sectorSize ∣ volume.bytesPerSector.toNat) (sector : UInt32)
    (count length : Nat) :
    session.ReadsOne
      (fun read => read = ⟨sector.toNat * volume.bytesPerSector.toNat,
          count * volume.bytesPerSector.toNat⟩ ∧
        ∀ error, ((volume.readSectors sector count length).perform session).1 = .error error →
          ((volume.readSectors sector count length).perform session).2.device.Fails read error)
      ((volume.readSectors sector count length).perform session).2 := by
  rw [readSectors, Access.perform_get_bind, Session.perform_readSectors]
  refine ⟨Device.sectorSize_eq_of_medium (Device.readSectors_medium _ _ _ _).2, ?_⟩
  rcases session.device.reads_readSectors_cases
    (sector.toNat * (volume.bytesPerSector.toNat / session.device.sectorSize))
    (count * (volume.bytesPerSector.toNat / session.device.sectorSize)) length with
    hsame | ⟨hread, hfails⟩
  · exact .inl hsame
  · refine .inr ⟨_, ⟨?_, fun error herror => ?_⟩, hread⟩
    · rw [Nat.mul_assoc, Nat.mul_assoc, Nat.div_mul_cancel hdvd]
    · exact hfails error (Transfer.outcome_eq_error herror)

theorem Volume.readsOne_readCluster
    (hdvd : session.device.sectorSize ∣ volume.bytesPerSector.toNat) (cluster : UInt32) :
    session.ReadsOne
      (fun read => volume.ClusterRead read ∧
        ∀ error, ((volume.readCluster cluster).perform session).1 = .error error →
          ((volume.readCluster cluster).perform session).2.device.Fails read error)
      ((volume.readCluster cluster).perform session).2 := by
  rw [readCluster, readClusterInto]
  split
  case isTrue hcluster =>
    refine (readsOne_readSectors hdvd _ _ _).imp fun read hread => ⟨?_, hread.2⟩
    refine ⟨cluster, hcluster, hread.1.trans ?_⟩
    rw [clusterSize, Nat.mul_comm volume.bytesPerSector.toNat volume.sectorsPerCluster.toNat]
  case isFalse => exact .refl session

theorem Table.readsOne_link (h : volume.Accepted)
    (hdvd : session.device.sectorSize ∣ volume.bytesPerSector.toNat) (table : Table)
    (cluster : UInt32) :
    session.ReadsOne volume.TableRead ((table.link volume cluster).run session).2 := by
  rw [link]
  split
  case isTrue hcluster =>
    change session.ReadsOne volume.TableRead
      ((table.sector volume (volume.entrySector cluster)).run session).2
    rw [sector]
    cases table.kept? (volume.entrySector cluster) with
    | some bytes => exact .refl session
    | none =>
        have hone := Volume.readsOne_readSectors hdvd (volume.entrySector cluster) 1
          volume.bytesPerSector.toNat
        rw [Nat.one_mul] at hone
        have hread := hone.imp fun read hread => hread.1 ▸ h.tableRead_entrySector hcluster
        rw [Access.perform] at hread
        rw [Session.run_bind]
        generalize (volume.readSectors _ 1 _).run.run session = performed at hread ⊢
        rcases performed with ⟨error | bytes, later⟩ <;> exact hread
  case isFalse => exact .refl session

theorem Chain.advance_cases (h : volume.Accepted)
    (hdvd : session.device.sectorSize ∣ volume.bytesPerSector.toNat) (chain : Chain) :
    session.ReadsOne volume.TableRead ((chain.advance volume).run session).2 ∧
      (((chain.advance volume).run session).1.1 = none →
        ((chain.advance volume).run session).2 = session) := by
  rw [advance]
  cases chain.refused with
  | some error => exact ⟨.refl session, fun h => absurd h (Option.some_ne_none _)⟩
  | none =>
      cases chain.due with
      | none => exact ⟨.refl session, fun _ => rfl⟩
      | some current =>
          dsimp only
          split
          · exact ⟨.refl session, fun h => absurd h (Option.some_ne_none _)⟩
          · have hlink := Table.readsOne_link h hdvd chain.table current
            rw [Session.run_bind]
            generalize (chain.table.link volume current).run session = linked at hlink ⊢
            rcases linked with ⟨⟨link, table⟩, later⟩
            dsimp only
            cases link.bind (follow volume chain.start current) with
            | error error => exact ⟨hlink, fun h => absurd h (Option.some_ne_none _)⟩
            | ok next =>
                exact ⟨⟨hlink.sectorSize_eq, hlink.reads_eq⟩,
                  fun h => absurd h (Option.some_ne_none _)⟩

end

/-! ## Heeding a deadline -/

/-- What was read from one session to a later one after the read that reached the deadline. -/
def Session.late (deadline : Nat) (session later : Session) : List StreamRead :=
  later.device.reads.drop (max deadline session.device.readCount)

theorem Session.ReadsOne.late {allowed : StreamRead → Prop} {session later : Session}
    (h : session.ReadsOne allowed later) (deadline : Nat) :
    (session.late deadline later).length ≤ 1 ∧
      ∀ read ∈ session.late deadline later, allowed read := by
  have hdrop : session.device.reads.drop (max deadline session.device.readCount) = [] := by
    rw [List.drop_eq_nil_iff, Device.length_reads]
    exact le_max_right _ _
  rw [Session.late]
  rcases h.reads_eq with hreads | ⟨read, hread, hreads⟩
  · rw [hreads, hdrop]
    exact ⟨Nat.zero_le 1, List.forall_mem_nil _⟩
  · rw [hreads, List.drop_append, hdrop, List.nil_append]
    refine ⟨by simp, fun other hother => ?_⟩
    rw [List.mem_singleton.mp (List.mem_of_mem_drop hother)]
    exact hread

/-- Once the deadline is reached, the reading is called off after at most one more read, of the
table, or it goes on without a read. An error that it then ends with was due. -/
structure Session.Heeds {α : Type} (volume : Volume) (deadline : Nat)
    (due : Device → Error → Prop) (session : Session) (outcome : Except Error α × Session) :
    Prop where
  sectorSize_eq : outcome.2.device.sectorSize = session.device.sectorSize
  reads_prefix : session.device.reads <+: outcome.2.device.reads
  heeded : deadline ≤ outcome.2.device.readCount →
    ((session.late deadline outcome.2).length ≤ 1 ∧
        (∀ read ∈ session.late deadline outcome.2, volume.TableRead read) ∧
        ∃ path, outcome.1 = .error (.cancelled path)) ∨
      session.late deadline outcome.2 = [] ∧
        ∀ error, outcome.1 = .error error → due outcome.2.device error

namespace Session.Heeds

variable {α β : Type} {volume : Volume} {deadline : Nat} {due : Device → Error → Prop}
  {session later : Session}

theorem readCount_le {outcome : Except Error α × Session}
    (h : session.Heeds volume deadline due outcome) :
    session.device.readCount ≤ outcome.2.device.readCount := by
  rw [← Device.length_reads, ← Device.length_reads]
  exact h.reads_prefix.length_le

theorem of_unread {result : Except Error α} (hdevice : later.device = session.device)
    (hdue : ∀ error, result = .error error → due session.device error) :
    session.Heeds volume deadline due (result, later) where
  sectorSize_eq := congrArg _ hdevice
  reads_prefix := (congrArg Device.reads hdevice) ▸ List.prefix_rfl
  heeded _ := by
    refine .inr ⟨?_, fun error herror => ?_⟩
    · rw [late, hdevice, List.drop_eq_nil_iff, Device.length_reads]
      exact le_max_right _ _
    · rw [hdevice]
      exact hdue error herror

theorem of_ok (value : α) (hdevice : later.device = session.device) :
    session.Heeds volume deadline due (.ok value, later) :=
  of_unread hdevice fun error herror => by contradiction

theorem of_early {allowed : StreamRead → Prop} {result : Except Error α}
    (h : session.ReadsOne allowed later) (hearly : session.device.readCount < deadline)
    (hdue : ∀ error read, result = .error error → allowed read →
      later.device.reads.getLast? = some read → due later.device error) :
    session.Heeds volume deadline due (result, later) where
  sectorSize_eq := h.sectorSize_eq
  reads_prefix := h.reads_prefix
  heeded hlate := by
    change deadline ≤ later.device.readCount at hlate
    have hcount := h.readCount_le
    refine .inr ⟨?_, fun error herror => ?_⟩
    · rw [late, List.drop_eq_nil_iff, Device.length_reads]
      exact (by omega : later.device.readCount ≤ deadline).trans (le_max_left _ _)
    · rcases h.reads_eq with hreads | ⟨read, hread, hreads⟩
      · have hsame := congrArg List.length hreads
        rw [Device.length_reads, Device.length_reads] at hsame
        omega
      · exact hdue error read herror hread (by rw [hreads, List.getLast?_concat])

theorem of_cancelled {path : String} (h : session.ReadsOne volume.TableRead later) :
    session.Heeds (α := α) volume deadline due (.error (.cancelled path), later) where
  sectorSize_eq := h.sectorSize_eq
  reads_prefix := h.reads_prefix
  heeded _ := by
    obtain ⟨hlength, hreads⟩ := h.late deadline
    exact .inl ⟨hlength, hreads, path, rfl⟩

theorem trans {anyDue : Device → Error → Prop} {value : α} {outcome : Except Error β × Session}
    (h : session.Heeds volume deadline anyDue (.ok value, later))
    (hrest : later.Heeds volume deadline due outcome) :
    session.Heeds volume deadline due outcome where
  sectorSize_eq := hrest.sectorSize_eq.trans h.sectorSize_eq
  reads_prefix := h.reads_prefix.trans hrest.reads_prefix
  heeded hlate := by
    have hle := h.readCount_le
    -- the first part has read nothing after the deadline
    have hmax : max deadline session.device.readCount = max deadline later.device.readCount := by
      by_cases hlater : deadline ≤ later.device.readCount
      · rcases h.heeded hlater with ⟨-, -, path, hpath⟩ | ⟨hnone, -⟩
        · contradiction
        · rw [late, List.drop_eq_nil_iff, Device.length_reads] at hnone
          dsimp only at hle hnone
          omega
      · dsimp only at hle
        omega
    have hheeded := hrest.heeded hlate
    rwa [late, ← hmax] at hheeded

theorem of_error {error : Error}
    (h : session.Heeds (α := α) volume deadline due (.error error, later)) :
    session.Heeds (α := β) volume deadline due (.error error, later) := by
  refine ⟨h.sectorSize_eq, h.reads_prefix, fun hlate => ?_⟩
  refine (h.heeded hlate).imp ?_ ?_
  · rintro ⟨hlength, hreads, path, hpath⟩
    exact ⟨hlength, hreads, path, congrArg _ (Except.error.inj hpath)⟩
  · rintro ⟨hnone, hdue⟩
    exact ⟨hnone, fun other hother => hdue other (congrArg _ (Except.error.inj hother))⟩

/-- An error that is skipped has not called the reading off. -/
theorem of_skipped {error : Error} {other : Session} (value : β)
    (h : session.Heeds (α := α) volume deadline due (.error error, later))
    (hlocal : error.isSubtreeLocal) (hother : other.device = later.device) :
    session.Heeds volume deadline due (.ok value, other) where
  sectorSize_eq := (congrArg _ hother).trans h.sectorSize_eq
  reads_prefix := (congrArg Device.reads hother) ▸ h.reads_prefix
  heeded hlate := by
    rw [hother] at hlate
    rw [late, hother]
    rcases h.heeded hlate with ⟨-, -, path, hpath⟩ | ⟨hnone, -⟩
    · rw [Except.error.inj hpath] at hlocal
      contradiction
    · exact .inr ⟨hnone, nofun⟩

theorem imp {other : Device → Error → Prop} {outcome : Except Error α × Session}
    (h : session.Heeds volume deadline due outcome)
    (hdue : ∀ device error, due device error → other device error) :
    session.Heeds volume deadline other outcome :=
  ⟨h.sectorSize_eq, h.reads_prefix, fun hlate => (h.heeded hlate).imp_right
    fun ⟨hnone, herror⟩ => ⟨hnone, fun error heq => hdue _ error (herror error heq)⟩⟩

theorem bind {access : Access α} {next : α → Access β}
    (h : session.Heeds volume deadline due (access.perform session))
    (hnext : ∀ value later, access.perform session = (.ok value, later) →
      later.Heeds volume deadline due ((next value).perform later)) :
    session.Heeds volume deadline due ((access >>= next).perform session) := by
  rw [Access.perform_bind]
  generalize access.perform session = performed at h hnext ⊢
  rcases performed with ⟨error | value, later⟩
  · exact h.of_error
  · exact h.trans (hnext value later rfl)

end Session.Heeds

/-! ## Directories -/

theorem Session.perform_checkDeadline (deadline : Nat) (path : String) (session : Session) :
    (checkDeadline (some deadline) path).perform session =
      if deadline ≤ session.device.readCount then (.error (.cancelled path), session)
      else (.ok (), session) := by
  change (if decide (deadline ≤ session.device.readCount) = true then
    (throw (Error.cancelled path) : Access Unit) else pure ()).perform session = _
  by_cases h : deadline ≤ session.device.readCount
  · rw [if_pos h, if_pos (decide_eq_true h)]
    rfl
  · rw [if_neg h, if_neg (by simpa using h)]
    rfl

namespace Volume

def Unreadable (volume : Volume) (device : Device) (error : Error) : Prop :=
  ∃ read, device.reads.getLast? = some read ∧ volume.ClusterRead read ∧ device.Fails read error

variable {volume : Volume} {session : Session} {deadline : Nat}

theorem perform_decodeNext_of_late (h : deadline ≤ session.device.readCount) (path : String)
    (item : Except Error UInt32) (state : Decoder × Array Entry) :
    (volume.decodeNext (some deadline) path item state).perform session =
      (.error (.cancelled path), session) := by
  rw [decodeNext, Access.perform_bind, Session.perform_checkDeadline, if_pos h]

theorem perform_decodeNext_of_early (h : session.device.readCount < deadline) (path : String)
    (item : Except Error UInt32) (state : Decoder × Array Entry) :
    (volume.decodeNext (some deadline) path item state).perform session =
      (volume.decodeNext none path item state).perform session := by
  rw [decodeNext, Access.perform_bind, Session.perform_checkDeadline,
    if_neg (Nat.not_le_of_lt h)]
  rfl

theorem heeds_decodeNext (hdvd : session.device.sectorSize ∣ volume.bytesPerSector.toNat)
    (path : String) (item : Except Error UInt32) (state : Decoder × Array Entry) :
    session.Heeds volume deadline volume.Unreadable
      ((volume.decodeNext (some deadline) path item state).perform session) := by
  by_cases hlate : deadline ≤ session.device.readCount
  · rw [perform_decodeNext_of_late hlate]
    exact .of_cancelled (.refl session)
  have hearly := Nat.lt_of_not_le hlate
  rw [perform_decodeNext_of_early hearly]
  cases item with
  | error error =>
      exact .of_early (.refl session) hearly fun _ _ _ (hnever : False) _ => hnever.elim
  | ok cluster =>
      have hone := readsOne_readCluster hdvd cluster
      change session.Heeds volume deadline volume.Unreadable
        ((volume.readCluster cluster >>= _).perform session)
      rw [Access.perform_bind]
      generalize (volume.readCluster cluster).perform session = performed at hone ⊢
      rcases performed with ⟨error | bytes, later⟩
      · refine .of_early hone hearly fun other read herror ⟨hread, hfails⟩ hlast => ?_
        exact ⟨read, hlast, hread, hfails other (congrArg _ (Except.error.inj herror))⟩
      · exact .of_early ⟨hone.sectorSize_eq, hone.reads_eq⟩ hearly nofun

end Volume

variable {volume : Volume} {session : Session} {deadline : Nat}

theorem Chain.heeds_forEach (h : volume.Accepted)
    (hdvd : session.device.sectorSize ∣ volume.bytesPerSector.toNat) (path : String) (limit : Nat)
    (chain : Chain) (state : Decoder × Array Entry) :
    session.Heeds volume deadline volume.Unreadable
      ((chain.forEach volume (volume.decodeNext (some deadline) path) limit state).perform
        session) := by
  induction limit generalizing session chain state with
  | zero => exact .of_ok _ rfl
  | succ limit ih =>
      rw [forEach, Access.perform_lift_bind]
      obtain ⟨hadvance, hnone⟩ := chain.advance_cases h hdvd
      generalize (chain.advance volume).run session = advanced at hadvance hnone ⊢
      rcases advanced with ⟨⟨item?, next⟩, between⟩
      have hdvd' : between.device.sectorSize ∣ volume.bytesPerSector.toNat :=
        hadvance.sectorSize_eq ▸ hdvd
      cases item? with
      | none => exact .of_ok _ (congrArg _ (hnone rfl))
      | some item =>
          dsimp only
          by_cases hlate : deadline ≤ between.device.readCount
          · rw [Access.perform_bind, Volume.perform_decodeNext_of_late hlate]
            exact .of_cancelled hadvance
          have hearly : session.Heeds (α := Unit) volume deadline volume.Unreadable
              (.ok (), between) :=
            ⟨hadvance.sectorSize_eq, hadvance.reads_prefix, fun h => absurd h hlate⟩
          have hdecode : between.Heeds volume deadline volume.Unreadable
              ((volume.decodeNext (some deadline) path item state).perform between) :=
            Volume.heeds_decodeNext hdvd' path item state
          refine hearly.trans (hdecode.bind fun step later hstep => ?_)
          rw [hstep] at hdecode
          cases step with
          | done state => exact .of_ok _ rfl
          | yield state => exact ih (hdecode.sectorSize_eq ▸ hdvd') next state

theorem Volume.heeds_readDirectory (h : volume.Accepted)
    (hdvd : session.device.sectorSize ∣ volume.bytesPerSector.toNat) (path : String)
    (cluster : UInt32) :
    session.Heeds volume deadline volume.Unreadable
      ((volume.readDirectory (some deadline) path cluster).perform session) := by
  exact (Chain.heeds_forEach h hdvd path _ _ _).bind fun _ _ _ => .of_ok _ rfl

/-! ## Surveys -/

namespace Survey

/-- The error of the last of some turns is settled without a further read: the cluster that was
read last could not be read, or the directory is refused, or its cluster was visited before. -/
inductive Due (volume : Volume) (options : Options) (turns : List Turn) (device : Device) :
    Error → Prop
  | unreadable {error : Error} : volume.Unreadable device error →
      Due volume options turns device error
  | refused {earlier : List Turn} {turn : Turn} {error : Error} :
      turns = earlier ++ [turn] → turn.task.refusal? options = some error →
      Due volume options turns device error
  | revisited {earlier : List Turn} {turn visited : Turn} :
      turns = earlier ++ [turn] → visited ∈ earlier → visited.task.refusal? options = none →
      visited.task.cluster = turn.task.cluster →
      Due volume options turns device (.corruptChain turn.task.cluster turn.task.cluster)

variable {options : Options}

theorem heeds_visit (h : volume.Accepted)
    (hdvd : session.device.sectorSize ∣ volume.bytesPerSector.toNat)
    (hdeadline : options.deadline = some deadline) (reached : Std.TreeSet UInt32) (task : Task) :
    session.Heeds volume deadline
      (fun device error => volume.Unreadable device error ∨ task.refusal? options = some error ∨
        reached.contains task.cluster = true ∧ error = .corruptChain task.cluster task.cluster)
      (((visit volume options reached task).run session).1.1,
        ((visit volume options reached task).run session).2) := by
  rw [visit, hdeadline]
  cases hrefusal : task.refusal? options with
  | some error =>
      exact .of_unread rfl fun _ heq => .inr (.inl (congrArg some (Except.error.inj heq)))
  | none =>
      dsimp only
      split
      case isTrue hreached =>
        exact .of_unread rfl fun _ heq => .inr (.inr ⟨hreached, (Except.error.inj heq).symm⟩)
      case isFalse =>
        exact (Volume.heeds_readDirectory h hdvd task.path task.cluster).imp fun _ _ => .inl

theorem heeds_step (h : volume.Accepted)
    (hdvd : session.device.sectorSize ∣ volume.bytesPerSector.toNat)
    (hdeadline : options.deadline = some deadline) (task : Task) (rest : List Task)
    (progress : Progress) :
    session.Heeds volume deadline
      (fun device error => volume.Unreadable device error ∨ task.refusal? options = some error ∨
        progress.reached.contains task.cluster = true ∧
          error = .corruptChain task.cluster task.cluster)
      ((step volume options task rest progress).perform session) := by
  have hvisit := heeds_visit h hdvd hdeadline progress.reached task
  rw [step, Access.perform_lift_bind]
  generalize (visit volume options progress.reached task).run session = visited at hvisit ⊢
  rcases visited with ⟨⟨error | entries, reached⟩, later⟩
  · dsimp only
    split
    case isTrue hskip => exact hvisit.of_skipped _ hskip.2.1 rfl
    case isFalse => exact hvisit.of_error
  · exact hvisit.trans (.of_ok _ rfl)

theorem contains_visitOn {read : UInt32 → Except Error (List Entry)}
    {reached : Std.TreeSet UInt32} {task : Task} {cluster : UInt32}
    (h : (visitOn read options reached task).2.contains cluster = true) :
    reached.contains cluster = true ∨
      task.refusal? options = none ∧ task.cluster = cluster := by
  rw [visitOn] at h
  cases hrefusal : task.refusal? options with
  | some error =>
      rw [hrefusal] at h
      exact .inl h
  | none =>
      rw [hrefusal] at h
      dsimp only at h
      split at h
      · exact .inl h
      · rw [Std.TreeSet.contains_insert, Bool.or_eq_true, beq_iff_eq,
          Std.compare_eq_iff_eq] at h
        exact h.symm.imp_right fun heq => ⟨rfl, heq⟩

theorem reached_of_stepOn {read : UInt32 → Except Error (List Entry)} {task : Task}
    {rest : List Task} {progress next : Progress}
    (h : stepOn read options task rest progress = .ok next) :
    next.reached = (visitOn read options progress.reached task).2 := by
  rw [stepOn] at h
  generalize visitOn read options progress.reached task = visited at h ⊢
  rcases visited with ⟨error | entries, reached⟩
  · dsimp only at h
    split at h
    · rw [← Except.ok.inj h]
    · contradiction
  · rw [← Except.ok.inj h]

/-- The clusters reached are those of earlier turns in which no directory was refused. -/
def ReachedIn (options : Options) (earlier : List Turn) (reached : Std.TreeSet UInt32) : Prop :=
  ∀ cluster, reached.contains cluster = true →
    ∃ visited ∈ earlier, visited.task.refusal? options = none ∧ visited.task.cluster = cluster

theorem Runs.heeds {progress : Progress} {turns : List Turn}
    {outcome : Except Error Progress × Session} (h : volume.Accepted)
    (hdvd : session.device.sectorSize ∣ volume.bytesPerSector.toNat)
    (hdeadline : options.deadline = some deadline)
    (hruns : Runs volume options progress session turns outcome) {earlier : List Turn}
    (hreached : ReachedIn options earlier progress.reached) :
    session.Heeds volume deadline (Due volume options (earlier ++ turns)) outcome := by
  induction hruns generalizing earlier with
  | idle _ => exact .of_ok _ rfl
  | @failed progress session later task rest entries error _ _ hstep =>
      have hheeds := heeds_step h hdvd hdeadline task rest progress
      rw [hstep] at hheeds
      refine hheeds.of_error.imp fun device error hdue => ?_
      rcases hdue with hunreadable | hrefused | ⟨hcontains, rfl⟩
      · exact .unreadable hunreadable
      · exact .refused rfl hrefused
      · obtain ⟨visited, hvisited, hrefusal, hcluster⟩ := hreached _ hcontains
        exact .revisited rfl hvisited hrefusal hcluster
  | @turn progress next session later task rest entries turns outcome _ _ hstep _ ih =>
      have hheeds := heeds_step h hdvd hdeadline task rest progress
      have hnext := perform_step volume options task session rest progress
      rw [hstep] at hheeds hnext
      have hdvd' : later.device.sectorSize ∣ volume.bytesPerSector.toNat :=
        hheeds.sectorSize_eq ▸ hdvd
      have hreached' : ReachedIn options (earlier ++ [⟨task, entries⟩]) next.reached := by
        intro cluster hcluster
        rw [reached_of_stepOn hnext.symm] at hcluster
        rcases contains_visitOn hcluster with hbefore | ⟨hrefusal, hsame⟩
        · obtain ⟨visited, hvisited, hvisit⟩ := hreached cluster hbefore
          exact ⟨visited, List.mem_append_left _ hvisited, hvisit⟩
        · exact ⟨_, List.mem_append_right _ (List.mem_singleton_self _), hrefusal, hsame⟩
      have hrest := ih hdvd' hreached'
      rw [List.append_assoc, List.singleton_append] at hrest
      exact hheeds.trans hrest

end Survey

/-! ## Surveys called off before they begin -/

theorem Volume.perform_readDirectory_of_late (haccepted : volume.Accepted)
    (hdvd : session.device.sectorSize ∣ volume.bytesPerSector.toNat)
    (h : deadline ≤ session.device.readCount)
    (path : String) (cluster : UInt32) :
    (volume.readDirectory (some deadline) path cluster).perform session =
      (.error (.cancelled path),
        (((Chain.ofStart volume cluster).advance volume).run session).2) := by
  obtain ⟨hadvance, -⟩ := (Chain.ofStart volume cluster).advance_cases haccepted hdvd
  have hitem : ¬ ((Chain.ofStart volume cluster).call volume session).1 = none :=
    ((Chain.yielded_ofTable volume .empty cluster).call_eq_none_iff session).not.mpr
      (Chain.not_over_ofTable volume .empty cluster)
  rw [Chain.call] at hitem
  rw [readDirectory, chainBound, Chain.forEach, Access.perform_bind, Access.perform_lift_bind]
  generalize ((Chain.ofStart volume cluster).advance volume).run session = advanced
    at hadvance hitem ⊢
  rcases advanced with ⟨⟨_ | item, next⟩, later⟩
  · contradiction
  · have hlater : deadline ≤ later.device.readCount := by
      rw [← Device.length_reads] at h ⊢
      exact h.trans hadvance.reads_prefix.length_le
    dsimp only
    rw [Access.perform_bind, perform_decodeNext_of_late hlater]

theorem Volume.perform_survey_of_late (haccepted : volume.Accepted)
    (hdvd : session.device.sectorSize ∣ volume.bytesPerSector.toNat) {options : Survey.Options}
    (hdeadline : options.deadline = some deadline) (h : deadline ≤ session.device.readCount)
    (cluster : UInt32) :
    (volume.survey options cluster).perform session =
      (.error (.cancelled "/"),
        (((Chain.ofStart volume cluster).advance volume).run session).2) := by
  have hroot : (Survey.Task.root cluster).refusal? options = none :=
    if_neg (by simp [Survey.Task.depth, Survey.Task.root])
  let progress := Survey.Progress.start cluster
  have hvisit : (((Survey.visit volume options progress.reached (.root cluster)).run session).1.1,
      ((Survey.visit volume options progress.reached (.root cluster)).run session).2) =
      (.error (.cancelled "/"),
        (((Chain.ofStart volume cluster).advance volume).run session).2) := by
    rw [Survey.visit, hroot, hdeadline]
    exact perform_readDirectory_of_late haccepted hdvd h "/" cluster
  have hstep : (Survey.step volume options (.root cluster) [] progress).perform session =
      (.error (.cancelled "/"),
        (((Chain.ofStart volume cluster).advance volume).run session).2) := by
    rw [Survey.step, Access.perform_lift_bind]
    generalize (Survey.visit volume options progress.reached (.root cluster)).run session =
      visited at hvisit ⊢
    rcases visited with ⟨⟨entries, reached⟩, later⟩
    obtain ⟨rfl, rfl⟩ := Prod.mk.inj hvisit
    -- no policy skips a directory whose reading was called off
    dsimp only
    rw [if_neg fun hskip => Bool.false_ne_true hskip.2.1]
    rfl
  obtain ⟨limit, hlimit⟩ : ∃ limit, Survey.taskBound volume = limit + 1 := ⟨_, Nat.add_comm 1 _⟩
  have hrun : (Survey.run volume options (limit + 1) progress).perform session =
      (.error (.cancelled "/"),
        (((Chain.ofStart volume cluster).advance volume).run session).2) := by
    change (Survey.step volume options (.root cluster) [] progress >>= _).perform session = _
    rw [Access.perform_bind, hstep]
  rw [survey, hlimit, Access.perform_bind, hrun]

theorem Volume.Accepted.not_clusterRead (h : volume.Accepted) {read : StreamRead}
    (hread : volume.TableRead read) : ¬ volume.ClusterRead read := by
  obtain ⟨sector, -, hsector, rfl⟩ := hread
  rintro ⟨cluster, hcluster, hread⟩
  have htable := h.tableStart_add_le
  have hdata := (h.clusterSector_spec hcluster).1
  have hpos : 0 < volume.bytesPerSector.toNat := Nat.lt_of_lt_of_le (by decide) h.le_bytesPerSector
  have hsame := Nat.eq_of_mul_eq_mul_right hpos (congrArg StreamRead.offset hread)
  omega

namespace Volume

/-- A survey whose deadline is past is called off at its root, with no cluster read. One that
reaches its deadline reads at most one more sector of the table and no cluster, and is called off,
or it needs no further read: then it ends as it does without a deadline, with the whole result or
with an error that was due. -/
theorem survey_called_off {start session later : Session} {mounted : Mounted} {maxDepth : Nat}
    {policy : FailurePolicy} {deadline : Nat} {cluster : UInt32} {result : Except Error Survey}
    (hmount : (mount.perform start).1 = .ok mounted)
    (hdevice : session.device.sectorSize = start.device.sectorSize)
    (hsurvey : (mounted.volume.survey ⟨maxDepth, policy, some deadline⟩ cluster).perform session =
      (result, later)) :
    let volume := mounted.volume
    let options : Survey.Options := ⟨maxDepth, policy, some deadline⟩
    let late := session.late deadline later
    (deadline ≤ session.device.readCount →
      result = .error (.cancelled "/") ∧
        later.device.reads = session.device.reads ++ late) ∧
    (deadline ≤ later.device.readCount →
      late.length ≤ 1 ∧ (∀ read ∈ late, volume.TableRead read ∧ ¬ volume.ClusterRead read) ∧
      ((∃ path, result = .error (.cancelled path)) ∨
        late = [] ∧ (volume.survey options.unhurried cluster).perform session = (result, later) ∧
        ∀ error, result = .error error → ∃ turns,
          Survey.Runs volume options (.start cluster) session turns (.error error, later) ∧
          Survey.Due volume options turns later.device error)) := by
  obtain ⟨haccepted, hdvd⟩ := accepted_of_mount hmount
  rw [← hdevice] at hdvd
  intro volume options late
  have hdeadline : options.deadline = some deadline := rfl
  have hbound := Survey.affords_start volume cluster
  obtain ⟨turns, ⟨outcome, ended⟩, hruns⟩ := Survey.exists_runs hbound session
  have houtcome : (volume.survey options cluster).perform session =
      (outcome.map Survey.ofProgress, ended) := by
    rw [survey, Access.perform_bind, hruns.perform_run (hruns.length_le hbound)]
    cases outcome <;> rfl
  obtain ⟨rfl, rfl⟩ := Prod.mk.inj (hsurvey.symm.trans houtcome)
  have hstart : Survey.ReachedIn options [] (Survey.Progress.start cluster).reached :=
    fun _ hcontains => by simp [Survey.Progress.start] at hcontains
  have hheeds := hruns.heeds haccepted hdvd hdeadline hstart
  refine ⟨fun h => ⟨?_, ?_⟩, fun h => ?_⟩
  · have hcancelled := perform_survey_of_late haccepted hdvd hdeadline h cluster
    exact congrArg Prod.fst (hsurvey.symm.trans hcancelled)
  · obtain ⟨more, hmore⟩ := hheeds.reads_prefix
    dsimp only at hmore
    rw [show late = later.device.reads.drop _ from rfl, Nat.max_eq_right h, ← hmore,
      ← Device.length_reads, List.drop_left]
  · rcases hheeds.heeded h with ⟨hlength, hreads, path, hpath⟩ | ⟨hnone, hdue⟩
    · refine ⟨hlength, fun read hread => ?_, .inl ⟨path, congrArg _ hpath⟩⟩
      exact ⟨hreads read hread, haccepted.not_clusterRead (hreads read hread)⟩
    · have hlate : late = [] := hnone
      rw [hlate]
      have hcalled := Survey.calledOffOr_survey volume options cluster session
      rw [show (volume.survey options cluster).perform session = _ from hsurvey] at hcalled
      refine ⟨Nat.zero_le 1, List.forall_mem_nil _, hcalled.imp_right fun heq => ?_⟩
      refine ⟨rfl, heq.symm, fun error herror => ?_⟩
      cases outcome with
      | error other =>
          obtain rfl := Except.error.inj herror
          exact ⟨turns, hruns, hdue _ rfl⟩
      | ok progress => contradiction

/-- A survey of the specimen that is called off while its root is read looks up the chain of the
directory A, and reads no further. -/
theorem survey_called_off_specimen :
    let session : Session := .start (.ofStream (.whole Specimen.sound) 256)
    ∃ later,
      (mount.perform session).1 = .ok ⟨Specimen.volume, some ⟨some 3, some 6⟩⟩ ∧
      (Specimen.volume.survey ⟨2, .abort, some 2⟩ 2).perform session =
        (.error (.cancelled "/A"), later) ∧
      later.device.reads = [⟨1024, 512⟩, ⟨1536, 512⟩, ⟨1024, 512⟩] ∧
      session.late 2 later = [⟨1024, 512⟩] ∧
      ∀ read ∈ session.late 2 later,
        Specimen.volume.TableRead read ∧ ¬ Specimen.volume.ClusterRead read := by
  intro session
  have hmount : (mount.perform session).1 = .ok ⟨Specimen.volume, some ⟨some 3, some 6⟩⟩ :=
    eq_ok_of_toOption (by decide +kernel)
  have hreads : ((Specimen.volume.survey ⟨2, .abort, some 2⟩ 2).perform session).2.device.reads =
      [⟨1024, 512⟩, ⟨1536, 512⟩, ⟨1024, 512⟩] := by
    decide +kernel
  have hresult : ((Specimen.volume.survey ⟨2, .abort, some 2⟩ 2).perform session).1 =
      .error (.cancelled "/A") :=
    eq_error_of_map (f := fun _ => ()) (by decide +kernel)
  obtain ⟨later, hlater⟩ : ∃ later,
      ((Specimen.volume.survey ⟨2, .abort, some 2⟩ 2).perform session).2 = later := ⟨_, rfl⟩
  rw [hlater] at hreads
  have hsurvey : (Specimen.volume.survey ⟨2, .abort, some 2⟩ 2).perform session =
      (.error (.cancelled "/A"), later) := Prod.ext hresult hlater
  obtain ⟨-, hheeded⟩ := survey_called_off hmount rfl hsurvey
  obtain ⟨-, hlate, -⟩ := hheeded (by rw [← Device.length_reads, hreads]; decide)
  exact ⟨later, hmount, hsurvey, hreads, by rw [Session.late, hreads]; rfl, hlate⟩

end Volume

end Fat32
