import Fat32.Text.Blank

/-!
# Paths

A path names a node by the names on the way to it, separated by slashes. Leading, trailing and
repeated slashes do not count: a path is its list of non-empty components.
-/

namespace Fat32.Path

def pieces : List Char → List (List Char)
  | [] => [[]]
  | c :: rest =>
      if c = '/' then [] :: pieces rest
      else
        match pieces rest with
        | [] => [[c]]
        | piece :: others => (c :: piece) :: others

def components (path : String) : List String :=
  ((pieces path.toList).filter fun piece => !piece.isEmpty).map String.ofList

/-- The path of `name` under `parent`, which is taken as it is. -/
def join (parent name : String) : String := parent ++ "/" ++ name

/-- The path of `name` under `parent`, whose trailing slashes do not count. -/
def child (parent name : String) : String :=
  join (String.ofList (Text.dropTrailing (· == '/') parent.toList)) name

/-! ## Pieces -/

theorem pieces_ne_nil (text : List Char) : pieces text ≠ [] := by
  cases text with
  | nil => simp [pieces]
  | cons c rest =>
      simp only [pieces]
      split
      · simp
      · split <;> simp

theorem pieces_slash (rest : List Char) : pieces ('/' :: rest) = [] :: pieces rest := by
  simp [pieces]

end Fat32.Path
