import Fat32.Command.Logging
import Fat32.Command.Options
import Fat32.Command.Lines
import Fat32.Volume.Lookup

/-!
# Running the program

A run goes from the arguments and the content of the image to what is written and the exit code.
Nothing here touches the outside: the image comes in as a stream, or as the system's refusal to
open it.
-/

namespace Fat32.Command

structure Outcome where
  exitCode : Nat
  output : Bytes
  messages : String
  deriving DecidableEq, Repr

inductive Request
  | tree
  | list (path : Option String)
  | content (path : Option String)
  | info
  | unknown (word : String)
  deriving DecidableEq, Repr

/-- A request made without a word is for the tree. -/
def Request.ofWords : List String → Request
  | [] => .tree
  | word :: args =>
      if word = "tree" then .tree
      else if word = "ls" then .list args.head?
      else if word = "cat" then .content args.head?
      else if word = "info" then .info
      else .unknown word

inductive RequestError
  | missingFile (program : String)
  | unknownCommand (word : String)
  deriving DecidableEq, Repr

def RequestError.message : RequestError → String
  | .missingFile program => s!"usage: {program} <image> cat <fichier>"
  | .unknownCommand word => s!"commande inconnue: {word}"

structure OpeningError where
  code : Nat
  reason : String
  deriving DecidableEq, Repr

def OpeningError.message (error : OpeningError) : String :=
  s!"{error.reason} (os error {error.code})"

/-- What a request comes to: output, notes for the user, and perhaps the reason why it failed. -/
structure Reply where
  output : Bytes
  notes : List String
  failure : Option RequestError
  deriving DecidableEq, Repr

def joinLines (lines : List String) : String := String.join (lines.map (· ++ "\n"))

def encodeLines (lines : List String) : Bytes := (joinLines lines).toUTF8.toList

namespace Reply

def ofLines (lines : List String) : Reply := ⟨encodeLines lines, [], none⟩

end Reply

def Options.surveyOptions (options : Options) : Survey.Options where
  maxDepth := options.maxDepth.getD Survey.Options.standard.maxDepth
  onFailure := if options.keepGoing then .skip else .abort
  deadline := none

def Request.answer (request : Request) (program : String) (options : Options)
    (mounted : Mounted) : Access Reply := do
  let volume := mounted.volume
  match request with
  | .tree =>
      let survey ← volume.survey options.surveyOptions volume.rootCluster
      return ⟨encodeLines (treeLines survey.root), survey.skipped.map skippedLine, none⟩
  | .list path => return .ofLines (entryLines (← volume.listDir (path.getD "/")))
  | .content none => return ⟨[], [], some (.missingFile program)⟩
  | .content (some path) => return ⟨← volume.fileContent path, [], none⟩
  | .info => return .ofLines (infoLines mounted)
  | .unknown word =>
      return ⟨encodeLines (helpLines program), [], some (.unknownCommand word)⟩

def failureLine (reason : String) : String := s!"Erreur: {reason}"

def sectorSize : Nat := 512

namespace Outcome

def ofReply (log : List String) (reply : Reply) : Outcome where
  exitCode := if reply.failure.isSome then 1 else 0
  output := reply.output
  messages :=
    let failure := (reply.failure.map fun failure => failureLine failure.message).toList
    joinLines (log ++ reply.notes ++ failure)

def ofFailure (exitCode : Nat) (log : List String) (reason : String) : Outcome where
  exitCode := exitCode
  output := []
  messages := joinLines (log ++ [failureLine reason])

end Outcome

def plan (program : String) (args : List String) : Except Outcome Options :=
  if args.isEmpty || args.any (fun arg => arg = "-h" || arg = "--help") then
    .error (.ofReply [] (.ofLines (helpLines program)))
  else
    match Options.parse args with
    | .error error => .error (.ofFailure 2 [] error.message)
    | .ok options => .ok options

def execute (program : String) (logSetting : Option String) (options : Options)
    (image : Except OpeningError Stream) : Outcome :=
  match image with
  | .error error => .ofFailure 1 [] s!"impossible d'ouvrir '{options.image}': {error.message}"
  | .ok stream =>
      let session := Session.start (.ofStream stream sectorSize)
      let request := Request.ofWords options.words
      let (reply, session) := (mount >>= request.answer program options).perform session
      let threshold := Threshold.choose logSetting options.verbosity
      let log := (Event.shown threshold session.journal.toList).map Event.logLine
      match reply with
      | .ok reply => .ofReply log reply
      | .error error => .ofFailure 1 log error.message

end Fat32.Command
