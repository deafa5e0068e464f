import Fat32.Tree.Basic

/-!
# Outlines

A tree written flat, one line for each node with its depth: a directory, then what it holds. A
line belongs to the last directory before it that is one level up, so a tree can be built from
its lines read backwards.
-/

namespace Fat32

inductive Outline.Item
  | dir (name : String)
  | file (file : File)
  deriving DecidableEq, Repr

structure Outline.Line where
  depth : Nat
  item : Outline.Item
  deriving DecidableEq, Repr

abbrev Outline := List Outline.Line

def Outline.files (depth : Nat) (files : List File) : Outline :=
  files.map fun file => ⟨depth, .file file⟩

mutual

def Dir.outlineAt (depth : Nat) : Dir → Outline
  | ⟨name, files, dirs⟩ =>
      ⟨depth, .dir name⟩ :: (Outline.files (depth + 1) files ++ outlineAll (depth + 1) dirs)

def Dir.outlineAll (depth : Nat) : List Dir → Outline
  | [] => []
  | dir :: rest => dir.outlineAt depth ++ outlineAll depth rest

end

def Dir.outline (dir : Dir) : Outline := dir.outlineAt 0

namespace Outline

def Item.node (below : List Node) : Item → Node
  | .dir name => .dir ⟨name, below.filterMap Node.file?, below.filterMap Node.dir?⟩
  | .file f => .file f

/-- The nodes that some lines make up, with their depths. Nodes deeper than a line that follow it
belong to it. -/
def nodes (lines : Outline) : List (Nat × Node) :=
  lines.foldr
    (fun line later =>
      let isBelow (node : Nat × Node) : Bool := line.depth < node.1
      (line.depth, line.item.node ((later.takeWhile isBelow).map Prod.snd))
        :: later.dropWhile isBelow)
    []

def toDir? (lines : Outline) : Option Dir := (nodes lines).head?.bind fun node => node.2.dir?

/-! ## Reading back what was written -/

def StartsBy (depth : Nat) (nodes : List (Nat × Node)) : Prop :=
  ∀ node ∈ nodes.head?, node.1 ≤ depth

theorem StartsBy.mono {depth limit : Nat} {nodes : List (Nat × Node)}
    (h : StartsBy depth nodes) (hle : depth ≤ limit) : StartsBy limit nodes :=
  fun node hnode => Nat.le_trans (h node hnode) hle

theorem startsBy_map_append {α : Type} (depth : Nat) (f : α → Node) (items : List α)
    {others : List (Nat × Node)} (h : StartsBy depth others) :
    StartsBy depth (items.map (fun item => (depth, f item)) ++ others) := by
  cases items with
  | nil => simpa using h
  | cons item items =>
      intro node hnode
      simp only [List.map_cons, List.cons_append, List.head?_cons, Option.mem_some] at hnode
      subst hnode
      exact Nat.le_refl _

private theorem takeWhile_others {depth : Nat} {others : List (Nat × Node)}
    (h : StartsBy depth others) :
    others.takeWhile (fun node => decide (depth < node.1)) = [] := by
  cases others with
  | nil => rfl
  | cons node rest =>
      have hle : node.1 ≤ depth := h node rfl
      rw [List.takeWhile_cons, if_neg (by simpa using hle)]

private theorem dropWhile_others {depth : Nat} {others : List (Nat × Node)}
    (h : StartsBy depth others) :
    others.dropWhile (fun node => decide (depth < node.1)) = others := by
  cases others with
  | nil => rfl
  | cons node rest =>
      have hle : node.1 ≤ depth := h node rfl
      rw [List.dropWhile_cons, if_neg (by simpa using hle)]

/-- A line takes the deeper nodes that follow it and leaves the others. -/
theorem nodes_cons (line : Line) (lines : Outline) (below others : List (Nat × Node))
    (hlines : nodes lines = below ++ others)
    (hbelow : ∀ node ∈ below, line.depth < node.1) (hothers : StartsBy line.depth others) :
    nodes (line :: lines) = (line.depth, line.item.node (below.map Prod.snd)) :: others := by
  have hbelow' : ∀ node ∈ below, decide (line.depth < node.1) = true := fun node hnode =>
    decide_eq_true (hbelow node hnode)
  change (_, line.item.node (((nodes lines).takeWhile _).map Prod.snd))
    :: (nodes lines).dropWhile _ = _
  rw [hlines, List.takeWhile_append_of_pos hbelow', List.dropWhile_append_of_pos hbelow',
    takeWhile_others hothers, dropWhile_others hothers, List.append_nil]

theorem nodes_files (depth : Nat) (fs : List File) (rest : Outline)
    (hrest : StartsBy depth (nodes rest)) :
    nodes (files depth fs ++ rest) = fs.map (fun f => (depth, .file f)) ++ nodes rest := by
  induction fs with
  | nil => rfl
  | cons f fs ih =>
      exact nodes_cons ⟨depth, .file f⟩ _ [] _ ih (by simp)
        (startsBy_map_append depth .file fs hrest)

mutual

theorem nodes_outlineAt (depth : Nat) (dir : Dir) (rest : Outline)
    (hrest : StartsBy depth (nodes rest)) :
    nodes (dir.outlineAt depth ++ rest) = (depth, .dir dir) :: nodes rest := by
  match dir with
  | ⟨name, fs, dirs⟩ =>
      have hnext := hrest.mono (Nat.le_succ depth)
      have hdirs := nodes_outlineAll (depth + 1) dirs rest hnext
      have hlines := nodes_files (depth + 1) fs (Dir.outlineAll (depth + 1) dirs ++ rest)
        (hdirs ▸ startsBy_map_append (depth + 1) .dir dirs hnext)
      rw [hdirs] at hlines
      have hcons := nodes_cons ⟨depth, .dir name⟩ _
        (fs.map (fun f => (depth + 1, Node.file f)) ++ dirs.map (fun d => (depth + 1, Node.dir d)))
        (nodes rest) (hlines.trans (List.append_assoc ..).symm)
        (by
          intro node hnode
          simp only [List.mem_append, List.mem_map] at hnode
          obtain ⟨_, _, rfl⟩ | ⟨_, _, rfl⟩ := hnode <;> exact Nat.lt_succ_self depth)
        hrest
      have hfiles : dirs.filterMap (fun _ => (none : Option File)) = [] :=
        List.filterMap_eq_nil_iff.2 fun _ _ => rfl
      have hnodirs : fs.filterMap (fun _ => (none : Option Dir)) = [] :=
        List.filterMap_eq_nil_iff.2 fun _ _ => rfl
      simpa [Dir.outlineAt, Item.node, List.filterMap_append, List.filterMap_map,
        Function.comp_def, Node.file?, Node.dir?, hfiles, hnodirs] using hcons

theorem nodes_outlineAll (depth : Nat) (dirs : List Dir) (rest : Outline)
    (hrest : StartsBy depth (nodes rest)) :
    nodes (Dir.outlineAll depth dirs ++ rest)
      = dirs.map (fun d => (depth, .dir d)) ++ nodes rest := by
  match dirs with
  | [] => rfl
  | dir :: dirs =>
      have ih := nodes_outlineAll depth dirs rest hrest
      rw [Dir.outlineAll, List.append_assoc, nodes_outlineAt depth dir _
        (ih ▸ startsBy_map_append depth .dir dirs hrest), ih]
      rfl

end

theorem toDir?_outline (dir : Dir) : toDir? dir.outline = some dir := by
  have h := nodes_outlineAt 0 dir [] (fun node hnode => nomatch hnode)
  rw [List.append_nil] at h
  simp [toDir?, Dir.outline, h, Node.dir?]

end Outline

end Fat32
