import Fat32.Proofs.Medium

/-!
# Logs of reads

A stream remembers what was read from it. A computation that does no reads but allowed ones adds
only such reads to the log, whatever the stream holds and wherever it fails.
-/

namespace Fat32

theorem Stream.reads_read (stream : Stream) (offset count : Nat) :
    (stream.read offset count).2.reads = stream.reads.push ⟨offset, count⟩ := by
  rw [read]
  split <;> rfl

namespace Device

def reads (device : Device) : List StreamRead :=
  match device.backing with
  | .memory _ => []
  | .stream stream => stream.reads.toList

theorem reads_copy_ofStream (stream : Stream) (size first count : Nat) :
    ((ofStream stream size).copy first count).2.reads =
      (ofStream stream size).reads ++ [⟨first * size, count⟩] := by
  have hreads := stream.reads_read (first * size) count
  simp only [ofStream, copy]
  generalize stream.read (first * size) count = result at hreads ⊢
  rcases result with ⟨fault | bytes, after⟩ <;> simp_all [reads]

def fault? (device : Device) (read : StreamRead) : Option Fault :=
  match device.backing with
  | .memory _ => none
  | .stream stream => stream.fault? read.offset read.count

/-- The error is what comes of a read that the stream behind a device fails. -/
def Fails (device : Device) (read : StreamRead) (error : Error) : Prop :=
  ∃ sector fault, read.offset = sector * device.sectorSize ∧ device.fault? read = some fault ∧
    error = .io sector fault

theorem fails_of_copy {device : Device} {sector length : Nat} {error : Error}
    (h : (device.copy sector length).1.outcome = .error error) :
    (device.copy sector length).2.Fails ⟨sector * device.sectorSize, length⟩ error := by
  rcases device with ⟨size, image | ⟨image, reportedSize, damage, reads⟩⟩
  · contradiction
  · simp only [copy, Stream.read] at h ⊢
    cases hfault : Stream.fault? _ _ _ with
    | none =>
        rw [hfault] at h
        contradiction
    | some fault =>
        rw [hfault] at h
        exact ⟨sector, fault, rfl, hfault, (Except.error.inj h).symm⟩

theorem readSectors_ofStream_cases (stream : Stream) (size first count length : Nat) :
    (ofStream stream size).readSectors first count length =
        (ofStream stream size).copy first (count * size) ∨
      ((ofStream stream size).readSectors first count length).2 = ofStream stream size ∧
        (count = 0 ∨ ∃ error,
          ((ofStream stream size).readSectors first count length).1.outcome = .error error) := by
  by_cases hlength : length = count * size
  · rw [readSectors_ofStream_eq_readRun size hlength, readRun,
      show (ofStream stream size).sectorSize = size from rfl]
    by_cases hcount : count = 0
    · rw [if_pos hcount]
      exact .inr ⟨rfl, .inl hcount⟩
    · rw [if_neg hcount]
      cases (ofStream stream size).refusal? (first + count - 1) size with
      | some error => exact .inr ⟨rfl, .inr ⟨error, rfl⟩⟩
      | none => exact .inl rfl
  · rw [readSectors_of_length_ne _ first hlength]
    exact .inr ⟨rfl, .inr ⟨_, rfl⟩⟩

theorem reads_readSectors_ofStream (stream : Stream) (size first count length : Nat) :
    ((ofStream stream size).readSectors first count length).2.reads =
        (ofStream stream size).reads ++ [⟨first * size, count * size⟩] ∨
      ((ofStream stream size).readSectors first count length).2 = ofStream stream size ∧
        (count = 0 ∨ ∃ error,
          ((ofStream stream size).readSectors first count length).1.outcome = .error error) :=
  (readSectors_ofStream_cases stream size first count length).imp_left fun hcopy => by
    rw [hcopy, reads_copy_ofStream]

/-- A read of sectors is one read of the stream, which fails as the stream does, or leaves the
stream alone. -/
theorem reads_readSectors_cases (device : Device) (first count length : Nat) :
    let read : StreamRead := ⟨first * device.sectorSize, count * device.sectorSize⟩
    let after := (device.readSectors first count length).2
    after.reads = device.reads ∨
      after.reads = device.reads ++ [read] ∧
        ∀ error, (device.readSectors first count length).1.outcome = .error error →
          after.Fails read error := by
  intro read after
  rcases device with ⟨size, image | stream⟩
  · have hmedium := ((ofImage image size).readSectors_medium first count length).2
    exact .inl (congrArg reads (eq_ofImage_of_medium hmedium))
  · rcases readSectors_ofStream_cases stream size first count length with hcopy | ⟨hsame, -⟩
    · refine .inr ⟨?_, fun error herror => ?_⟩
      · exact (congrArg (·.2.reads) hcopy).trans (reads_copy_ofStream stream size first _)
      · rw [show after = _ from congrArg Prod.snd hcopy]
        exact fails_of_copy ((congrArg (·.1.outcome) hcopy).symm.trans herror)
    · exact .inl (congrArg reads hsame)

theorem reads_readSectors (device : Device) (first count length : Nat) :
    ∃ more, (device.readSectors first count length).2.reads = device.reads ++ more ∧
      (more = [] ∨ more = [⟨first * device.sectorSize, count * device.sectorSize⟩]) := by
  rcases device.reads_readSectors_cases first count length with hsame | ⟨hread, -⟩
  · exact ⟨[], hsame.trans (List.append_nil _).symm, .inl rfl⟩
  · exact ⟨_, hread, .inr rfl⟩

end Device

/-- On devices with sectors of `size` bytes the computation does no reads but allowed ones. -/
def ReadsOnly {α : Type} (size : Nat) (allowed : StreamRead → Prop) (action : StateM Session α) :
    Prop :=
  ∀ session : Session, session.device.sectorSize = size →
    (action.run session).2.device.sectorSize = size ∧
      ∃ more, (action.run session).2.device.reads = session.device.reads ++ more ∧
        ∀ read ∈ more, allowed read

namespace ReadsOnly

variable {α β : Type} {size : Nat} {allowed : StreamRead → Prop}

theorem pure (value : α) : ReadsOnly size allowed (Pure.pure value) :=
  fun _ hsize => ⟨hsize, [], (List.append_nil _).symm, by simp⟩

theorem report (events : List Event) : ReadsOnly size allowed (Session.report events) :=
  fun _ hsize => ⟨hsize, [], (List.append_nil _).symm, by simp⟩

theorem bind {action : StateM Session α} {next : α → StateM Session β}
    (h : ReadsOnly size allowed action) (hnext : ∀ value, ReadsOnly size allowed (next value)) :
    ReadsOnly size allowed (action >>= next) := by
  intro session hsize
  obtain ⟨hsize', reads, hreads, hallowed⟩ := h session hsize
  obtain ⟨hsize'', more, hmore, hallowed'⟩ := hnext (action.run session).1 _ hsize'
  refine ⟨hsize'', reads ++ more, ?_, List.forall_mem_append.mpr ⟨hallowed, hallowed'⟩⟩
  rw [← List.append_assoc, ← hreads]
  exact hmore

/-! ### Accesses -/

theorem access_pure (value : α) : ReadsOnly size allowed (Pure.pure value : Access α).run :=
  pure _

theorem throw (error : Error) :
    ReadsOnly size allowed (MonadExcept.throw error : Access α).run :=
  pure _

theorem lift_bind {action : StateM Session α} {next : α → Access β}
    (h : ReadsOnly size allowed action)
    (hnext : ∀ value, ReadsOnly size allowed (next value).run) :
    ReadsOnly size allowed (liftM action >>= next : Access β).run :=
  h.bind hnext

theorem access_bind {access : Access α} {next : α → Access β}
    (h : ReadsOnly size allowed access.run)
    (hnext : ∀ value, ReadsOnly size allowed (next value).run) :
    ReadsOnly size allowed (access >>= next).run := by
  rw [ExceptT.run_bind]
  refine h.bind fun result => ?_
  cases result with
  | error error => exact pure _
  | ok value => exact hnext value

theorem of_except {result : Except Error α} {next : α → Access β}
    (hnext : ∀ value, ReadsOnly size allowed (next value).run) :
    ReadsOnly size allowed (liftM result >>= next : Access β).run := by
  cases result with
  | error error => exact throw error
  | ok value => exact hnext value

theorem get_bind {next : Session → Access α}
    (hnext : ∀ session, session.device.sectorSize = size →
      ReadsOnly size allowed (next session).run) :
    ReadsOnly size allowed (get >>= next : Access α).run :=
  fun session hsize => hnext session hsize session hsize

end ReadsOnly

theorem Session.readsOnly_readSectors {size first count : Nat} {allowed : StreamRead → Prop}
    (h : allowed ⟨first * size, count * size⟩) (length : Nat) :
    ReadsOnly size allowed (Session.readSectors first count length).run := by
  intro session hsize
  have hrun : (Session.readSectors first count length).run.run session = _ :=
    session.perform_readSectors first count length
  have hmedium := (session.device.readSectors_medium first count length).2
  obtain ⟨more, hreads, hmore⟩ := session.device.reads_readSectors first count length
  rw [hrun]
  refine ⟨(Device.sectorSize_eq_of_medium hmedium).trans hsize, more, hreads, ?_⟩
  rw [hsize] at hmore
  rcases hmore with rfl | rfl
  · exact List.forall_mem_nil _
  · exact List.forall_mem_singleton.mpr h

theorem Session.readsOnly_checkDeadline {size : Nat} {allowed : StreamRead → Prop}
    (deadline : Option Nat) (path : String) :
    ReadsOnly size allowed (checkDeadline deadline path).run := by
  refine .get_bind fun session _ => ?_
  dsimp only
  split
  · exact .throw _
  · exact .access_pure ()

end Fat32
