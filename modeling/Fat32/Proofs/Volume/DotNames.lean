import Fat32.Proofs.Directory.Writing
import Fat32.Proofs.Tree.Finding
import Fat32.Proofs.Volume.Subdirectories

/-!
# Dot names

The entries of a directory itself and of its parent are told by their short names, and no listing
or tree shows them. Whatever else is shown goes by its long name if it has one, and nothing keeps a
long name from being that of a parent. So a dot name is shown wherever a directory spells it before
a slot whose short name is another, and nowhere else.
-/

namespace Fat32

def IsDotName (name : String) : Prop := name = "." ∨ name = ".."

instance : DecidablePred IsDotName := fun name =>
  inferInstanceAs (Decidable (name = "." ∨ name = ".."))

theorem Entry.isDot_iff (entry : Entry) : entry.isDot = true ↔ IsDotName entry.shortName := by
  simp [isDot, IsDotName]

/-! ## Slots -/

/-- The slot of an entry stands for a file or directory, and its short name is no dot name. -/
def RawSlot.IsShown (raw : RawSlot) : Prop :=
  raw.byte 11 &&& 0x08 = 0 ∧ ¬ IsDotName raw.shortName.display

namespace Directory

def SpellsShown (slots : List RawSlot) (name : String) : Prop :=
  ∃ position ∈ entrySlots slots, position.2.IsShown ∧ IsLongName position.1 position.2 name

namespace Describes

variable {before : List RawSlot} {raw : RawSlot} {entry : Entry}

theorem isVolumeLabel_iff (h : Describes before raw entry) (hraw : raw.IsEntry) :
    entry.isVolumeLabel = true ↔ raw.byte 11 &&& 0x08 ≠ 0 := by
  have hlong : raw.byte 11 &&& 0x3F ≠ 0x0F := hraw.2.2
  simp [Entry.isVolumeLabel, h.attributes_eq, Attributes.isVolumeLabel, Attributes.isLongName,
    Attributes.longNamePattern, Attributes.labelBit, hlong]

theorem shortName_eq_display (h : Describes before raw entry) (hraw : raw.IsEntry)
    (hlabel : raw.byte 11 &&& 0x08 = 0) : entry.shortName = raw.shortName.display := by
  rw [h.shortName_eq, if_neg]
  rw [h.isVolumeLabel_iff hraw]
  exact not_not.mpr hlabel

theorem isHidden_eq_false_iff (h : Describes before raw entry) (hraw : raw.IsEntry) :
    entry.isHidden = false ↔ raw.IsShown := by
  have hlabel : entry.isVolumeLabel = false ↔ raw.byte 11 &&& 0x08 = 0 := by
    rw [← Bool.not_eq_true, h.isVolumeLabel_iff hraw, not_not]
  rw [Entry.isHidden, Bool.or_eq_false_iff, and_comm, RawSlot.IsShown, hlabel]
  refine and_congr_right fun hzero => ?_
  rw [← Bool.not_eq_true, entry.isDot_iff, h.shortName_eq_display hraw hzero]

theorem name_eq_iff (h : Describes before raw entry) (hraw : raw.IsEntry) (hshown : raw.IsShown)
    {name : String} (hname : IsDotName name) :
    entry.name = name ↔ IsLongName before raw name := by
  refine ⟨fun heq => ?_, h.name_eq_of_isLongName name⟩
  by_cases hlong : ∃ text, IsLongName before raw text
  · obtain ⟨text, htext⟩ := hlong
    rwa [← heq, h.name_eq_of_isLongName text htext]
  · have hshort := h.name_eq_shortName (not_exists.mp hlong)
    rw [heq, h.shortName_eq_display hraw hshown.1] at hshort
    exact absurd (hshort ▸ hname) hshown.2

end Describes

theorem describes_entrySlots (slots : List RawSlot) :
    List.Forall₂ (fun position entry => Describes position.1 position.2 entry) (entrySlots slots)
      (decoded slots).entries.toList := by
  rw [entries_decoded]
  exact entries_listed fun raw hraw => by simpa using List.mem_takeWhile_imp hraw

end Directory

def ShowsAs (entries : List Entry) (name : String) : Prop :=
  ∃ entry ∈ entries, entry.isHidden = false ∧ entry.name = name

theorem showsAs_iff_of_forall₂ {positions : List (List RawSlot × RawSlot)} {entries : List Entry}
    (h : List.Forall₂ (fun position entry => Directory.Describes position.1 position.2 entry)
      positions entries) (hentries : ∀ position ∈ positions, position.2.IsEntry) {name : String}
    (hname : IsDotName name) :
    ShowsAs entries name ↔ ∃ position ∈ positions, position.2.IsShown ∧
      Directory.IsLongName position.1 position.2 name := by
  induction h with
  | nil => simp [ShowsAs]
  | @cons position entry positions entries hdescribes _ ih =>
      obtain ⟨hraw, hrest⟩ := List.forall_mem_cons.mp hentries
      have hhere : entry.isHidden = false ∧ entry.name = name ↔ position.2.IsShown ∧
          Directory.IsLongName position.1 position.2 name := by
        rw [hdescribes.isHidden_eq_false_iff hraw]
        exact and_congr_right fun hshown => hdescribes.name_eq_iff hraw hshown hname
      rw [ShowsAs, List.exists_mem_cons_iff, hhere, List.exists_mem_cons_iff]
      exact or_congr_right (ih hrest)

theorem showsAs_decoded_iff (slots : List RawSlot) {name : String} (hname : IsDotName name) :
    ShowsAs (Directory.decoded slots).entries.toList name ↔ Directory.SpellsShown slots name := by
  refine showsAs_iff_of_forall₂ (Directory.describes_entrySlots slots) ?_ hname
  intro position hposition
  simpa using (List.mem_filter.mp hposition).2

/-! ## Directories -/

namespace Volume

variable {volume : Volume} {session : Session}

/-- The clusters of the directory at `cluster`, up to the first one with an end mark, hold
`slots`. -/
def Holds (volume : Volume) (device : Device) (cluster : UInt32) (slots : List RawSlot) : Prop :=
  ∃ items contents, Chain.Yields volume device.medium (.ofStart volume cluster) items ∧
    (items.take (items.findIdx (volume.endsIn device) + 1)).mapM (volume.contentOf device) =
      .ok contents ∧ Bytes.slots contents.flatten = slots

theorem readDir_eq_ok_iff (h : volume.Accepted) {cluster : UInt32} {entries : List Entry} :
    ((volume.readDir cluster).perform session).1 = .ok entries ↔
      ∃ slots, volume.Holds session.device cluster slots ∧
        (Directory.decoded slots).entries.toList = entries := by
  obtain ⟨known, hknown, hlength, -⟩ :=
    Chain.exists_yields_begins volume session.device.medium cluster
  rw [perform_readDir hknown hlength, forIn_decodedOn h rfl]
  constructor
  · intro hread
    cases hcontents : (known.take (known.findIdx (volume.endsIn session.device) + 1)).mapM
        (volume.contentOf session.device) with
    | error error =>
        rw [hcontents] at hread
        contradiction
    | ok contents =>
        rw [hcontents] at hread
        exact ⟨_, ⟨known, contents, hknown, hcontents, rfl⟩, Except.ok.inj hread⟩
  · rintro ⟨slots, ⟨items, contents, hitems, hcontents, rfl⟩, rfl⟩
    obtain rfl := hknown.unique hitems
    rw [hcontents]
    rfl

theorem exists_showsAs_iff (h : volume.Accepted) {cluster : UInt32} {name : String}
    (hname : IsDotName name) :
    (∃ entries, ((volume.readDir cluster).perform session).1 = .ok entries ∧
        ShowsAs entries name) ↔
      ∃ slots, volume.Holds session.device cluster slots ∧ Directory.SpellsShown slots name := by
  simp only [readDir_eq_ok_iff h, ← showsAs_decoded_iff _ hname]
  constructor
  · rintro ⟨_, ⟨slots, hholds, rfl⟩, hshows⟩
    exact ⟨slots, hholds, hshows⟩
  · rintro ⟨slots, hholds, hshows⟩
    exact ⟨_, ⟨slots, hholds, rfl⟩, hshows⟩

end Volume

/-! ## Trees -/

def Listed.AnyNamed (items : List Listed) (name : String) : Prop :=
  ∃ listed ∈ items, listed.node.name = name

section

variable {path name : String} {depth : Nat}

theorem Dir.anyNamed_listedAt {root : String} {files : List File} {dirs : List Dir} :
    Listed.AnyNamed (listedAt path depth ⟨root, files, dirs⟩) name ↔
      (∃ file ∈ files, file.name = name) ∨ Listed.AnyNamed (listedAll path depth dirs) name := by
  simp [listedAt, Listed.AnyNamed, Node.name, or_and_right, exists_or]

theorem Dir.anyNamed_listedAll_cons {child : Dir} {dirs : List Dir} :
    Listed.AnyNamed (listedAll path depth (child :: dirs)) name ↔
      child.name = name ∨
        Listed.AnyNamed (child.listedAt (Path.join path child.name) (depth + 1)) name ∨
        Listed.AnyNamed (listedAll path depth dirs) name := by
  simp [listedAll, Path.join, Listed.AnyNamed, Node.name, or_and_right, exists_or]

end

theorem ShowsAs.cons_of_hidden {entry : Entry} {entries : List Entry} {name : String}
    (h : entry.isDot ∨ entry.isVolumeLabel) :
    ShowsAs (entry :: entries) name ↔ ShowsAs entries name := by
  simp [ShowsAs, entry.isHidden_iff.mpr h]

theorem ShowsAs.cons_of_shown {entry : Entry} {entries : List Entry} {name : String}
    (h : ¬ (entry.isDot ∨ entry.isVolumeLabel)) :
    ShowsAs (entry :: entries) name ↔ entry.name = name ∨ ShowsAs entries name := by
  simp [ShowsAs, entry.isHidden_eq_false_iff.mpr h]

namespace Survey

variable {read : UInt32 → Except Error (List Entry)} {maxDepth : Nat} {name : String}

def ShownAt (read : UInt32 → Except Error (List Entry)) (clusters : List UInt32)
    (name : String) : Prop :=
  ∃ cluster ∈ clusters, ∃ entries, read cluster = .ok entries ∧ ShowsAs entries name

theorem shownAt_cons {cluster : UInt32} {clusters : List UInt32} {entries : List Entry}
    (hread : read cluster = .ok entries) :
    ShownAt read (cluster :: clusters) name ↔
      ShowsAs entries name ∨ ShownAt read clusters name := by
  simp [ShownAt, hread]

theorem shownAt_append {clusters others : List UInt32} :
    ShownAt read (clusters ++ others) name ↔
      ShownAt read clusters name ∨ ShownAt read others name := by
  simp [ShownAt, or_and_right, exists_or]

/-- A node goes by the name of an entry that was read, and where nothing was left out each entry
gives its name to a node. -/
theorem Fates.anyNamed {task : Task} {entries : List Entry} {files : List File} {dirs : List Dir}
    {clusters : List UInt32} {skipped : List Skipped}
    (h : Fates read maxDepth task entries files dirs clusters skipped) (root path : String)
    (depth : Nat) :
    (Listed.AnyNamed (Dir.listedAt path depth ⟨root, files, dirs⟩) name →
      ShowsAs entries name ∨ ShownAt read clusters name) ∧
    (skipped = [] → ShowsAs entries name ∨ ShownAt read clusters name →
      Listed.AnyNamed (Dir.listedAt path depth ⟨root, files, dirs⟩) name) := by
  -- entry by entry; only an entry left out gives its name to no node
  induction h generalizing root path depth with
  | nil => simp [Listed.AnyNamed, Dir.listedAt, Dir.listedAll, ShowsAs, ShownAt]
  | hidden hhidden _ ih =>
      rw [ShowsAs.cons_of_hidden hhidden]
      exact ih root path depth
  | file hshown _ _ ih =>
      have hrest := ih root path depth
      rw [Dir.anyNamed_listedAt] at hrest
      rw [ShowsAs.cons_of_shown hshown, Dir.anyNamed_listedAt, List.exists_mem_cons_iff,
        or_assoc, or_assoc]
      exact ⟨Or.imp_right hrest.1, fun hskipped => Or.imp_right (hrest.2 hskipped)⟩
  | @dir _ entry _ _ _ _ _ _ _ _ _ _ hshown _ _ hread _ _ ihbelow ih =>
      have hrest := ih root path depth
      have hbelow := ihbelow entry.name (Path.join path entry.name) (depth + 1)
      rw [Dir.anyNamed_listedAt] at hrest
      rw [ShowsAs.cons_of_shown hshown, Dir.anyNamed_listedAt, Dir.anyNamed_listedAll_cons,
        List.cons_append, shownAt_cons hread, shownAt_append]
      constructor
      · rintro (hfile | hname | hnode | hnode)
        · exact (hrest.1 (.inl hfile)).imp .inr (.inr ∘ .inr)
        · exact .inl (.inl hname)
        · exact .inr ((hbelow.1 hnode).imp_right .inl)
        · exact (hrest.1 (.inr hnode)).imp .inr (.inr ∘ .inr)
      · intro hskipped
        obtain ⟨hnoneBelow, hnone⟩ := List.append_eq_nil_iff.mp hskipped
        rintro ((hname | hentry) | hentry | hbelowShown | hother)
        · exact .inr (.inl hname)
        · exact (hrest.2 hnone (.inl hentry)).imp_right (.inr ∘ .inr)
        · exact .inr (.inr (.inl (hbelow.2 hnoneBelow (.inl hentry))))
        · exact .inr (.inr (.inl (hbelow.2 hnoneBelow (.inr hbelowShown))))
        · exact (hrest.2 hnone (.inr hother)).imp_right (.inr ∘ .inr)
  | skipped hshown _ _ ih =>
      rw [ShowsAs.cons_of_shown hshown, or_assoc]
      exact ⟨fun hnamed => .inr ((ih root path depth).1 hnamed),
        fun hskipped => absurd hskipped (List.cons_ne_nil _ _)⟩

theorem Accounts.anyNamed {task : Task} {dir : Dir} {clusters : List UInt32}
    {skipped : List Skipped} (h : Accounts read maxDepth task dir clusters skipped)
    (name : String) :
    (Listed.AnyNamed dir.listing name → ShownAt read clusters name) ∧
      (skipped = [] → ShownAt read clusters name → Listed.AnyNamed dir.listing name) := by
  rw [Dir.listing_eq]
  cases h with
  | read _ hread hfates =>
      rw [shownAt_cons hread]
      exact hfates.anyNamed _ "" 0

end Survey

namespace Volume

/-- What is shown of a mounted volume has a dot name just where a directory spells it. An entry of
a listing goes by one if and only if that is the long name of a file or directory whose short name
is another. So does a node of a tree, as long as nothing was left out of it. -/
theorem dot_name_iff {start session : Session} {mounted : Mounted}
    (hmount : (mount.perform start).1 = .ok mounted) {name : String} (hname : IsDotName name) :
    let volume := mounted.volume
    (∀ path listed, ((volume.listDir path).perform session).1 = .ok listed →
      ∃ here slots, ((volume.lookup path).perform session).1 = .ok here ∧
        volume.Holds session.device here.firstCluster slots ∧
        ((∃ entry ∈ listed, entry.name = name) ↔ Directory.SpellsShown slots name)) ∧
    ∀ options cluster survey, ((volume.survey options cluster).perform session).1 = .ok survey →
      ∃ clusters, Survey.Accounts (fun cluster => ((volume.readDir cluster).perform session).1)
          options.maxDepth (.root cluster) survey.root clusters survey.skipped ∧
        let spelled := ∃ cluster ∈ clusters, ∃ slots,
          volume.Holds session.device cluster slots ∧ Directory.SpellsShown slots name
        (Listed.AnyNamed survey.root.listing name → spelled) ∧
          (survey.skipped = [] → spelled → Listed.AnyNamed survey.root.listing name) := by
  intro volume
  have haccepted : volume.Accepted := (accepted_of_mount hmount).1
  constructor
  · intro path listed hlist
    obtain ⟨here, entries, hlookup, -, hread, rfl⟩ := exists_of_listDir hlist
    obtain ⟨slots, hholds, rfl⟩ := (readDir_eq_ok_iff haccepted).mp hread
    refine ⟨here, slots, hlookup, hholds, ?_⟩
    rw [← showsAs_decoded_iff slots hname]
    simp [ShowsAs, and_assoc]
  · intro options cluster survey hsurvey
    obtain ⟨clusters, haccounts, -⟩ := Survey.accounts_below (below_of_survey hsurvey)
    refine ⟨clusters, haccounts, ?_⟩
    have hspelled := haccounts.anyNamed name
    simp only [Survey.ShownAt, exists_showsAs_iff haccepted hname] at hspelled
    exact hspelled

end Volume

namespace Specimen

def parentFragment : RawSlot :=
  Directory.fragmentSlot 0x41 0x80 (.ofFn fun i =>
    if i.val < 2 then 0x002E else if i.val = 2 then 0x0000 else 0xFFFF)

def upward : Image :=
  .ofParts (18 * 256) (bootParts ++ hintParts ++ tableParts ++
    [(1536, parentFragment.toList ++ slot 0x41 0x10 3 0)])

theorem mount_upward : (mount.perform (.start (.ofImage upward 256))).1 =
    .ok ⟨volume, some ⟨some 3, some 6⟩⟩ :=
  eq_ok_of_toOption (by decide +kernel)

theorem listDir_upward : ((volume.listDir "/").perform (.start (.ofImage upward 256))).1 =
    .ok [⟨"..", "A", ⟨0x10⟩, 0, 3⟩] :=
  eq_ok_of_toOption (by decide +kernel)

theorem survey_upward :
    ((volume.survey .standard 2).perform (.start (.ofImage upward 256))).1 =
      .ok ⟨⟨"/", [], [⟨"..", [], []⟩]⟩, []⟩ :=
  eq_ok_of_toOption_map Survey.eq_of_outline_eq (by decide +kernel)

/-- The root of the volume spells the name of a parent, and shows it both in the listing and in
the tree. -/
theorem dot_name_iff_upward :
    let session : Session := .start (.ofImage upward 256)
    ∃ slots, (mount.perform session).1 = .ok ⟨volume, some ⟨some 3, some 6⟩⟩ ∧
      ((volume.listDir "/").perform session).1 = .ok [⟨"..", "A", ⟨0x10⟩, 0, 3⟩] ∧
      volume.Holds session.device 2 slots ∧ Directory.SpellsShown slots ".." ∧
      ∃ clusters, Survey.Accounts (fun cluster => ((volume.readDir cluster).perform session).1) 128
          (.root 2) ⟨"/", [], [⟨"..", [], []⟩]⟩ clusters [] ∧
        ∃ cluster ∈ clusters, ∃ slots,
          volume.Holds session.device cluster slots ∧ Directory.SpellsShown slots ".." := by
  intro session
  obtain ⟨hlisting, htree⟩ := @Volume.dot_name_iff _ session _ mount_upward ".." (.inr rfl)
  obtain ⟨here, slots, hlookup, hholds, hnames⟩ := hlisting "/" _ listDir_upward
  obtain rfl : volume.rootEntry = here :=
    Except.ok.inj ((eq_ok_of_toOption (by decide +kernel)).symm.trans hlookup)
  obtain ⟨clusters, haccounts, hspelled, -⟩ := htree .standard 2 _ survey_upward
  refine ⟨slots, mount_upward, listDir_upward, hholds, ?_, clusters, haccounts, hspelled ?_⟩
  · exact hnames.mp ⟨_, List.mem_singleton_self _, rfl⟩
  · exact ⟨⟨"/..", 0, .dir ⟨"..", [], []⟩⟩, List.mem_singleton_self _, rfl⟩

end Specimen

/-- Neither trees nor listings can be counted on to show no dot name. -/
theorem Volume.not_forall_dotless :
    ¬ ∀ (session : Session) (mounted : Mounted), (mount.perform session).1 = .ok mounted →
      (∀ options cluster survey,
        ((mounted.volume.survey options cluster).perform session).1 = .ok survey →
        ∀ listed ∈ survey.root.listing, ¬ IsDotName listed.node.name) ∧
      ∀ path listed, ((mounted.volume.listDir path).perform session).1 = .ok listed →
        ∀ entry ∈ listed, ¬ IsDotName entry.name := by
  intro h
  obtain ⟨-, hlisting⟩ := h _ _ Specimen.mount_upward
  exact hlisting "/" _ Specimen.listDir_upward _ (List.mem_singleton_self _) (.inr rfl)

end Fat32
