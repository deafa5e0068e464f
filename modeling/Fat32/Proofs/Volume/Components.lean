import Fat32.Proofs.Volume.Subdirectories

/-!
# Paths and their components

Of a path nothing counts but its components, and of these the case of the letters A to Z does not
count: two paths that differ in nothing else lead to the same, or fail alike but for the path that
the error names. With one more component a path leads to the first entry that goes by it in the
directory that the path leads to.
-/

namespace Fat32

inductive Error.UpToPath : Error → Error → Prop
  | refl (error : Error) : UpToPath error error
  | notFound (path other : String) : UpToPath (.notFound path) (.notFound other)
  | notDirectory (path other : String) : UpToPath (.notDirectory path) (.notDirectory other)
  | isDirectory (path other : String) : UpToPath (.isDirectory path) (.isDirectory other)

theorem Error.sameness_upToPath : Sameness UpToPath where
  refl := .refl
  eq_of_local h hlocal := by
    cases h with
    | refl => rfl
    | notFound => simp [isSubtreeLocal] at hlocal
    | notDirectory => simp [isSubtreeLocal] at hlocal
    | isDirectory => simp [isSubtreeLocal] at hlocal

open Error (UpToPath)
open Text (caseFold)

namespace Volume

variable {volume : Volume} {medium : Device}

/-! ## Components up to case -/

theorem select?_congr {name other : String} (h : caseFold name = caseFold other)
    (entries : List Entry) : select? entries name = select? entries other := by
  simp only [select?, Entry.answersTo, Text.sameIgnoringCase, h]

theorem servedAlike_upToPath (volume : Volume) (medium : Device) :
    volume.ServedAlike UpToPath medium medium :=
  ⟨fun _ _ => .refl .refl _, fun _ _ _ => .refl .refl _⟩

def SameEntry (result other : Except Error (String × Entry)) : Prop :=
  Alike UpToPath (result.map Prod.snd) (other.map Prod.snd)

theorem coupled_descend_of_caseFold {name other : String} (h : caseFold name = caseFold other)
    (parent otherParent : String) (entry : Entry) :
    Coupled medium medium SameEntry (volume.descend (parent, entry) name).run
      (volume.descend (otherParent, entry) other).run := by
  simp only [descend]
  split
  · exact .pure (.error (.notDirectory _ _))
  · have hread := coupled_readDir Error.sameness_upToPath (volume.servedAlike_upToPath medium)
      entry.firstCluster
    rw [ExceptT.run_bind, ExceptT.run_bind]
    refine hread.bind fun result otherResult hresult => ?_
    cases hresult with
    | error herror => exact .pure (.error herror)
    | ok entries =>
        simp only [select?_congr h]
        cases select? entries other with
        | none => exact .pure (.error (.notFound _ _))
        | some found => exact .pure (.ok _)

theorem coupled_foldlM_descend_of_caseFold {names others : List String}
    (h : List.Forall₂ (fun name other => caseFold name = caseFold other) names others)
    (parent otherParent : String) (entry : Entry) :
    Coupled medium medium SameEntry (names.foldlM volume.descend (parent, entry)).run
      (others.foldlM volume.descend (otherParent, entry)).run := by
  induction h generalizing parent otherParent entry with
  | nil => exact .pure (.ok entry)
  | cons hname _ ih =>
      rw [List.foldlM_cons, List.foldlM_cons, ExceptT.run_bind, ExceptT.run_bind]
      refine (coupled_descend_of_caseFold hname parent otherParent entry).bind ?_
      rintro (error | ⟨path, found⟩) (other | ⟨otherPath, otherFound⟩) hsame
      · cases hsame with
        | error herror => exact .pure (.error herror)
      · contradiction
      · contradiction
      · cases hsame
        exact ih path otherPath found

/-- The paths have the same components but for the case of letters. -/
def SameComponents (path other : String) : Prop :=
  List.Forall₂ (fun name other => caseFold name = caseFold other) (Path.components path)
    (Path.components other)

section

variable {path other : String} (h : SameComponents path other)
include h

theorem coupled_lookup_of_sameComponents :
    Coupled medium medium (Alike UpToPath) (volume.lookup path).run (volume.lookup other).run := by
  rw [lookup, lookup, ExceptT.run_bind, ExceptT.run_bind]
  refine (coupled_foldlM_descend_of_caseFold h "" "" volume.rootEntry).bind ?_
  rintro (error | ⟨walked, found⟩) (other | ⟨otherWalked, otherFound⟩) hsame
  · cases hsame with
    | error herror => exact .pure (.error herror)
  · contradiction
  · contradiction
  · cases hsame
    exact .pure (.ok found)

theorem coupled_listDir_of_sameComponents :
    Coupled medium medium (Alike UpToPath) (volume.listDir path).run
      (volume.listDir other).run := by
  refine (coupled_lookup_of_sameComponents h).access_bind fun entry => ?_
  split
  · exact .throw (.notDirectory path other)
  · exact (coupled_readDir Error.sameness_upToPath (volume.servedAlike_upToPath medium)
      entry.firstCluster).access_bind fun entries => .access_pure _

theorem coupled_fileContent_of_sameComponents :
    Coupled medium medium (Alike UpToPath) (volume.fileContent path).run
      (volume.fileContent other).run := by
  refine (coupled_lookup_of_sameComponents h).access_bind fun entry => ?_
  split
  · exact .throw (.isDirectory path other)
  · exact coupled_readContent Error.sameness_upToPath (volume.servedAlike_upToPath medium)
      entry.firstCluster entry.size.toNat

end

/-! ## One more component -/

/-- What one more component, which makes the path `walked`, leads to from the entry `here`. A
directory whose entry gives cluster 0 is taken for the root. -/
inductive ComponentIs (volume : Volume) (read : UInt32 → Except Error (List Entry))
    (walked name : String) (here : Entry) : Except Error Entry → Prop
  | notDirectory : ¬ here.isDirectory → ComponentIs volume read walked name here
      (.error (.notDirectory walked))
  | unreadable {error : Error} : here.isDirectory → read here.firstCluster = .error error →
      ComponentIs volume read walked name here (.error error)
  | notFound {entries : List Entry} : here.isDirectory → read here.firstCluster = .ok entries →
      (∀ entry ∈ entries, ¬ entry.GoesBy name) →
      ComponentIs volume read walked name here (.error (.notFound walked))
  | found {before after : List Entry} {entry : Entry} : here.isDirectory →
      read here.firstCluster = .ok (before ++ entry :: after) →
      (∀ other ∈ before, ¬ other.GoesBy name) → entry.GoesBy name →
      ¬ (entry.isDirectory ∧ entry.firstCluster = 0) →
      ComponentIs volume read walked name here (.ok entry)
  | root {before after : List Entry} {entry : Entry} : here.isDirectory →
      read here.firstCluster = .ok (before ++ entry :: after) →
      (∀ other ∈ before, ¬ other.GoesBy name) → entry.GoesBy name →
      entry.isDirectory → entry.firstCluster = 0 →
      ComponentIs volume read walked name here
        (.ok { entry with firstCluster := volume.rootCluster })

theorem ComponentIs.resolve {read : UInt32 → Except Error (List Entry)} {walked name : String}
    {here entry : Entry} {entries : List Entry} (hdir : here.isDirectory)
    (hread : read here.firstCluster = .ok entries) (hselect : select? entries name = some entry) :
    volume.ComponentIs read walked name here (.ok (volume.resolve entry)) := by
  obtain ⟨hgoes, before, after, rfl, hbefore⟩ := select?_eq_some_iff.mp hselect
  by_cases hroot : entry.isDirectory ∧ entry.firstCluster = 0
  · have hresolve : volume.resolve entry = { entry with firstCluster := volume.rootCluster } := by
      simp [Volume.resolve, hroot]
    rw [hresolve]
    exact .root hdir hread hbefore hgoes hroot.1 hroot.2
  · have hresolve : volume.resolve entry = entry := by
      simpa [Volume.resolve] using fun h hzero => absurd ⟨h, hzero⟩ hroot
    rw [hresolve]
    exact .found hdir hread hbefore hgoes hroot

theorem exists_gives_descend (volume : Volume) (session : Session) (parent name : String)
    (entry : Entry) :
    let walked := Path.join parent name
    ∃ result, volume.ComponentIs (fun cluster => ((volume.readDir cluster).perform session).1)
        walked name entry result ∧
      session.device.medium.Gives (volume.descend (parent, entry) name).run
        (result.map (walked, ·)) := by
  intro walked
  have hread := volume.gives_readDirectory_readDir session "" entry.firstCluster
  by_cases hdir : entry.isDirectory
  · simp only [descend, hdir]
    cases hresult : ((volume.readDir entry.firstCluster).perform session).1 with
    | error error =>
        rw [hresult] at hread
        exact ⟨_, .unreadable hdir hresult, hread.error_bind⟩
    | ok entries =>
        rw [hresult] at hread
        cases hselect : select? entries name with
        | none =>
            refine ⟨_, .notFound hdir hresult (select?_eq_none_iff.mp hselect), hread.ok_bind ?_⟩
            simp only [hselect]
            exact .throw _
        | some found =>
            refine ⟨_, .resolve hdir hresult hselect, hread.ok_bind ?_⟩
            simp only [hselect]
            exact .access_pure _
  · simp only [descend, hdir]
    exact ⟨_, .notDirectory hdir, .throw _⟩

variable {session : Session}

theorem walked_of_foldlM_descend {names : List String} {parent walked : String}
    {entry found : Entry}
    (h : ((names.foldlM volume.descend (parent, entry)).perform session).1 = .ok (walked, found)) :
    walked = names.foldl Path.join parent := by
  induction names generalizing parent entry session with
  | nil => exact (Prod.mk.inj (Except.ok.inj h)).1.symm
  | cons name names ih =>
      rw [List.foldlM_cons] at h
      obtain ⟨⟨path, here⟩, later, hdescend, hrest⟩ := Access.exists_of_perform_bind_eq_ok h
      obtain ⟨result, -, hgives⟩ := exists_gives_descend volume session parent name entry
      have hresult := hgives.perform
      rw [hdescend] at hresult
      cases result with
      | error error => contradiction
      | ok found =>
          obtain ⟨rfl, -⟩ := Prod.mk.inj (Except.ok.inj hresult)
          exact ih hrest

theorem componentIs_lookup_join {path name : String} {here : Entry}
    (h : ((volume.lookup path).perform session).1 = .ok here) (hname : Path.IsComponent name) :
    volume.ComponentIs (fun cluster => ((volume.readDir cluster).perform session).1)
      (Path.ofNames (Path.components path ++ [name])) name here
      ((volume.lookup (Path.join path name)).perform session).1 := by
  obtain ⟨parent, hparent⟩ := Follows.of_lookup h
  obtain ⟨result, hresult, hdescend⟩ := exists_gives_descend volume session parent name here
  have hwalked : Path.join parent name = Path.ofNames (Path.components path ++ [name]) := by
    rw [walked_of_foldlM_descend hparent.perform, ← String.empty_append (s := Path.ofNames _),
      ← Path.foldl_join (List.concat_ne_nil _ _), List.foldl_append]
    rfl
  have hlookup : session.device.medium.Gives (volume.lookup (Path.join path name)).run result := by
    rw [lookup, Path.components_join hname, List.foldlM_append]
    cases result with
    | error error => exact (hparent.ok_bind hdescend.error_bind).error_bind
    | ok found =>
        exact (hparent.ok_bind (hdescend.ok_bind (.access_pure _))).ok_bind (.access_pure found)
  rw [hlookup.perform, ← hwalked]
  exact hresult

/-- Of two paths with the same components up to case, looking up, listing and reading come to the
same or fail alike. With one more component a path leads to the first entry that goes by it where
the path leads, or fails for the one reason that the entries there give. -/
theorem lookup_by_components {later : Session}
    (hlater : later.device.medium = session.device.medium) :
    (∀ path other, SameComponents path other →
      Alike UpToPath ((volume.lookup path).perform session).1
          ((volume.lookup other).perform later).1 ∧
        Alike UpToPath ((volume.listDir path).perform session).1
          ((volume.listDir other).perform later).1 ∧
        Alike UpToPath ((volume.fileContent path).perform session).1
          ((volume.fileContent other).perform later).1) ∧
    ∀ path name here, ((volume.lookup path).perform session).1 = .ok here →
      Path.IsComponent name →
      volume.ComponentIs (fun cluster => ((volume.readDir cluster).perform later).1)
        (Path.ofNames (Path.components path ++ [name])) name here
        ((volume.lookup (Path.join path name)).perform later).1 := by
  constructor
  · intro path other h
    exact ⟨(coupled_lookup_of_sameComponents h session later rfl hlater).1,
      (coupled_listDir_of_sameComponents h session later rfl hlater).1,
      (coupled_fileContent_of_sameComponents h session later rfl hlater).1⟩
  · intro path name here h hname
    have hfollows := (Follows.of_lookup h).gives_lookup_of_components
    exact componentIs_lookup_join (hfollows later hlater).1 hname

end Volume

namespace Specimen

/-- A file is found in any case, a path through a file fails under its own name, and the label of
the root does not stand in the way of the directory with the same name. On the other volume, the
directory with cluster 0 is the root. -/
theorem lookup_by_components_sound :
    let session : Session := .start (.ofImage sound 256)
    let found (path : String) := ((volume.lookup path).perform session).1
    found "/A/E" = .ok ⟨"E", "E", ⟨0x20⟩, 1, 7⟩ ∧
      found "a//e/" = .ok ⟨"E", "E", ⟨0x20⟩, 1, 7⟩ ∧
      found "/C/E" = .error (.notDirectory "/C/E") ∧
      Alike UpToPath (.error (.notDirectory "/C/E")) (found "c/e") ∧
      volume.ComponentIs (fun cluster => ((volume.readDir cluster).perform session).1) "/a" "a"
        volume.rootEntry (.ok ⟨"A", "A", ⟨0x10⟩, 0, 3⟩) ∧
      let session : Session := .start (.ofImage astray 256)
      volume.ComponentIs (fun cluster => ((volume.readDir cluster).perform session).1) "/a" "a"
        volume.rootEntry (.ok ⟨"A", "A", ⟨0x10⟩, 0, 2⟩) := by
  intro session found
  have hfile : found "/A/E" = .ok ⟨"E", "E", ⟨0x20⟩, 1, 7⟩ := eq_ok_of_toOption (by decide +kernel)
  have hnone : found "/C/E" = .error (.notDirectory "/C/E") :=
    eq_error_of_map (f := fun _ => ()) (by decide +kernel)
  have hroot : found "" = .ok volume.rootEntry := eq_ok_of_toOption (by decide +kernel)
  have hdir : found "/a" = .ok ⟨"A", "A", ⟨0x10⟩, 0, 3⟩ := eq_ok_of_toOption (by decide +kernel)
  obtain ⟨hsame, hjoin⟩ := volume.lookup_by_components (Eq.refl session.device.medium)
  have hfileSame : Volume.SameComponents "/A/E" "a//e/" :=
    .cons (by decide) (.cons (by decide) .nil)
  have hnoneSame : Volume.SameComponents "/C/E" "c/e" := .cons (by decide) (.cons (by decide) .nil)
  have hcomponent := hjoin "" "a" volume.rootEntry hroot (by decide)
  rw [show Path.join "" "a" = "/a" by decide,
    show ((volume.lookup "/a").perform session).1 = _ from hdir] at hcomponent
  refine ⟨hfile, (hsame _ _ hfileSame).1.eq_ok hfile, hnone, hnone ▸ (hsame _ _ hnoneSame).1,
    hcomponent, ?_⟩
  intro session
  have hastray : ((volume.lookup "/a").perform session).1 = .ok ⟨"A", "A", ⟨0x10⟩, 0, 2⟩ :=
    eq_ok_of_toOption (by decide +kernel)
  have hcomponent := (volume.lookup_by_components (Eq.refl session.device.medium)).2 "" "a"
    volume.rootEntry lookup_astray (by decide)
  rwa [show Path.join "" "a" = "/a" by decide, hastray] at hcomponent

end Specimen

end Fat32
