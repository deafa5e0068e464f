/-!
# Command-line options

Options may stand anywhere among the other arguments. Of those, the first names the image and
the rest are the command with what it is about.
-/

namespace Fat32.Command

structure Options where
  image : String
  words : List String
  maxDepth : Option Nat
  keepGoing : Bool
  verbosity : Nat
  deriving DecidableEq, Repr

inductive UsageError
  | missingDepth
  | invalidDepth (text : String)
  | missingImage
  deriving DecidableEq, Repr

def UsageError.message : UsageError → String
  | .missingDepth => "--max-depth attend une valeur"
  | .invalidDepth text => s!"profondeur invalide: {text}"
  | .missingImage => "chemin de l'image manquant"

def digit? (c : Char) : Option Nat := if c.isDigit then some (c.toNat - '0'.toNat) else none

def digits? : List Char → Option Nat
  | [] => none
  | chars => chars.foldlM (fun value c => (digit? c).map (10 * value + ·)) 0

def maxSize : Nat := UInt64.size - 1

/-- A number of at most 64 bits, which may have a plus sign. -/
def size? (text : String) : Option Nat :=
  let value :=
    match text.toList with
    | '+' :: chars => digits? chars
    | chars => digits? chars
  value.filter (· ≤ maxSize)

structure Draft where
  positional : Array String
  maxDepth : Option Nat
  keepGoing : Bool
  verbosity : Nat
  deriving DecidableEq, Repr

namespace Draft

def empty : Draft := ⟨#[], none, false, 0⟩

def add (draft : Draft) (arg : String) : Draft :=
  if arg = "--keep-going" then { draft with keepGoing := true }
  else if arg = "-v" then { draft with verbosity := draft.verbosity + 1 }
  else if arg = "-vv" then { draft with verbosity := draft.verbosity + 2 }
  else { draft with positional := draft.positional.push arg }

/-- Reads all arguments. The depth option takes the argument after it, whatever that is. -/
def addAll : Draft → List String → Except UsageError Draft
  | draft, [] => .ok draft
  | draft, [arg] => if arg = "--max-depth" then .error .missingDepth else .ok (draft.add arg)
  | draft, arg :: value :: rest =>
      if arg = "--max-depth" then
        match size? value with
        | none => .error (.invalidDepth value)
        | some depth => addAll { draft with maxDepth := some depth } rest
      else addAll (draft.add arg) (value :: rest)

end Draft

namespace Options

def ofDraft (draft : Draft) : Except UsageError Options :=
  match draft.positional.toList with
  | [] => .error .missingImage
  | image :: words => .ok ⟨image, words, draft.maxDepth, draft.keepGoing, draft.verbosity⟩

def parse (args : List String) : Except UsageError Options :=
  (Draft.empty.addAll args).bind ofDraft

end Options

end Fat32.Command
