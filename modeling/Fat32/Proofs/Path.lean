import Fat32.Path
import Mathlib.Data.List.DropRight

/-!
# Paths of names

The path that is written from names has just these names as its components, as long as none of
them is empty or has a slash in it. Joined to any path, such a name is one more component. As the
child of a path it comes to the same place, unless the path ends in slashes of its own.
-/

namespace Fat32.Path

def ofNames (names : List String) : String := "/" ++ "/".intercalate names

def IsComponent (name : String) : Prop := name ≠ "" ∧ '/' ∉ name.toList

instance (name : String) : Decidable (IsComponent name) :=
  inferInstanceAs (Decidable (name ≠ "" ∧ '/' ∉ name.toList))

theorem pieces_of_notMem {piece : List Char} (h : '/' ∉ piece) : pieces piece = [piece] := by
  induction piece with
  | nil => rfl
  | cons c piece ih =>
      simp only [List.mem_cons, not_or] at h
      rw [pieces, if_neg (Ne.symm h.1), ih h.2]

theorem pieces_append_slash (text rest : List Char) :
    pieces (text ++ '/' :: rest) = pieces text ++ pieces rest := by
  induction text with
  | nil => exact pieces_slash rest
  | cons c text ih =>
      rw [List.cons_append, pieces, ih, pieces]
      by_cases hslash : c = '/'
      · rw [if_pos hslash, if_pos hslash, List.cons_append]
      · rw [if_neg hslash, if_neg hslash]
        obtain ⟨piece, others, hpieces⟩ := List.exists_cons_of_ne_nil (pieces_ne_nil text)
        rw [hpieces]
        rfl

theorem pieces_intercalate {name : String} {names : List String}
    (h : ∀ component ∈ name :: names, '/' ∉ component.toList) :
    pieces ("/".intercalate (name :: names)).toList = (name :: names).map String.toList := by
  induction names generalizing name with
  | nil => simpa using pieces_of_notMem (h name (List.mem_singleton_self name))
  | cons other names ih =>
      obtain ⟨hname, hnames⟩ := List.forall_mem_cons.mp h
      rw [String.intercalate_cons_cons, String.toList_append, String.toList_append,
        List.append_assoc, List.map_cons, ← ih hnames]
      exact (pieces_append_slash name.toList _).trans (congrArg (· ++ _) (pieces_of_notMem hname))

theorem components_ofNames {names : List String} (h : ∀ name ∈ names, IsComponent name) :
    components (ofNames names) = names := by
  have hpath : pieces (ofNames names).toList =
      [] :: pieces ("/".intercalate names).toList := by
    rw [ofNames, String.toList_append]
    exact pieces_slash _
  rw [components, hpath]
  cases names with
  | nil => rfl
  | cons name names =>
      rw [pieces_intercalate fun component hcomponent => (h component hcomponent).2]
      have hfilled : ∀ piece ∈ (name :: names).map String.toList, (!piece.isEmpty) = true := by
        intro piece hpiece
        obtain ⟨component, hcomponent, rfl⟩ := List.mem_map.mp hpiece
        have hne := (h component hcomponent).1
        simpa using hne
      rw [List.filter_cons_of_neg (by simp), List.filter_eq_self.mpr hfilled, List.map_map]
      simp

theorem toList_join (parent name : String) :
    (join parent name).toList = parent.toList ++ '/' :: name.toList := by
  rw [join, String.toList_append, String.toList_append, List.append_assoc]
  rfl

theorem components_join {name : String} (h : IsComponent name) (parent : String) :
    components (join parent name) = components parent ++ [name] := by
  have hpath : pieces (join parent name).toList = pieces parent.toList ++ [name.toList] := by
    rw [toList_join, pieces_append_slash, pieces_of_notMem h.2]
  rw [components, hpath, List.filter_append, List.map_append, components]
  simp [h.1]

theorem foldl_join {names : List String} (h : names ≠ []) (parent : String) :
    names.foldl join parent = parent ++ ofNames names := by
  induction names generalizing parent with
  | nil => contradiction
  | cons name names ih =>
      cases names with
      | nil => simp [join, ofNames, String.append_assoc]
      | cons other names =>
          rw [List.foldl_cons, ih (List.cons_ne_nil other names), ofNames, ofNames,
            String.intercalate_cons_cons, join]
          simp only [String.append_assoc]

/-! ## Trailing slashes -/

def IsTrimmed (name : String) : Prop := name ≠ "" ∧ name.toList.getLast? ≠ some '/'

instance (name : String) : Decidable (IsTrimmed name) :=
  inferInstanceAs (Decidable (name ≠ "" ∧ name.toList.getLast? ≠ some '/'))

def trimmed (path : String) : List Char := Text.dropTrailing (· == '/') path.toList

theorem toList_child (parent name : String) :
    (child parent name).toList = trimmed parent ++ '/' :: name.toList := by
  rw [child, toList_join, String.toList_ofList, trimmed]

theorem isPrefix_trimmed (path : String) : trimmed path <+: path.toList :=
  List.rdropWhile_prefix (· == '/') path.toList

theorem trimmed_eq_self_iff {path : String} :
    trimmed path = path.toList ↔ path.toList.getLast? ≠ some '/' := by
  have h : trimmed path = path.toList.rdropWhile (· == '/') := rfl
  rw [h, List.rdropWhile_eq_self_iff]
  rcases path.toList.eq_nil_or_concat with hnil | ⟨chars, c, hc⟩
  · simp [hnil]
  · simp [hc]

theorem trimmed_child_eq_self_iff (parent name : String) :
    trimmed (child parent name) = (child parent name).toList ↔ IsTrimmed name := by
  rw [trimmed_eq_self_iff, toList_child, List.getLast?_append, IsTrimmed, List.getLast?_cons]
  by_cases hname : name = "" <;> simp [hname, Option.getD_eq_iff]

/-- Below the root, a path that is written child by child is no longer than the one that joins the
same names, even before its trailing slashes are dropped. -/
theorem length_trimmed_le (names : List String) :
    (trimmed (names.foldl child "/")).length ≤ (names.foldl join "").toList.length := by
  induction names using List.reverseRecOn with
  | nil => exact Nat.le_refl 0
  | append_singleton names name ih =>
      have hprefix := (isPrefix_trimmed (child (names.foldl child "/") name)).length_le
      rw [toList_child, List.length_append] at hprefix
      simp only [List.foldl_append, List.foldl_cons, List.foldl_nil, toList_join,
        List.length_append]
      omega

theorem trimmed_foldl_child_iff (names : List String) :
    trimmed (names.foldl child "/") = (names.foldl join "").toList ↔
      ∀ name ∈ names, IsTrimmed name := by
  induction names using List.reverseRecOn with
  | nil => simp [trimmed, Text.dropTrailing]
  | append_singleton names name ih =>
      have hle := length_trimmed_le names
      rw [List.forall_mem_append, List.forall_mem_singleton, ← ih]
      simp only [List.foldl_append, List.foldl_cons, List.foldl_nil, toList_join]
      generalize names.foldl child "/" = parent at hle ⊢
      rw [← trimmed_child_eq_self_iff parent]
      constructor
      · intro h
        have hprefix := isPrefix_trimmed (child parent name)
        have hlength := hprefix.length_le
        rw [h, toList_child, List.length_append, List.length_append] at hlength
        have hself : trimmed (child parent name) = (child parent name).toList := by
          refine hprefix.eq_of_length_le ?_
          rw [h, toList_child, List.length_append, List.length_append]
          omega
        rw [hself, toList_child] at h
        exact ⟨List.append_cancel_right h, hself⟩
      · rintro ⟨hparent, hself⟩
        rw [hself, toList_child, hparent]

/-- Both ways to write the path of a node come to the same, just when no trailing slash is dropped
that belongs to a name above it or stands before an empty one. -/
theorem foldl_child_eq_join_iff (names : List String) (name : String) :
    (names ++ [name]).foldl child "/" = join (names.foldl join "") name ↔
      ∀ above ∈ names, IsTrimmed above := by
  rw [← trimmed_foldl_child_iff, List.foldl_append, List.foldl_cons, List.foldl_nil,
    ← String.toList_inj, toList_child, toList_join, List.append_left_inj]

end Fat32.Path
