import Fat32.Command.Run

/-!
# The program

Arguments, the log setting and the image file come from outside; everything else is decided by
`Fat32.Command`.
-/

namespace Fat32.Program

def name : String := "fat32-tree"

def logVariable : String := "FAT32_TREE_LOG"

def refusal : IO.Error → Command.OpeningError
  | .alreadyExists _ code reason | .otherError code reason | .resourceBusy code reason
  | .resourceVanished code reason | .unsupportedOperation code reason
  | .hardwareFault code reason | .unsatisfiedConstraints code reason
  | .illegalOperation code reason | .protocolError code reason | .timeExpired code reason
  | .interrupted _ code reason | .noFileOrDirectory _ code reason
  | .invalidArgument _ code reason | .permissionDenied _ code reason
  | .resourceExhausted _ code reason | .inappropriateType _ code reason
  | .noSuchThing _ code reason => ⟨code.toNat, reason⟩
  | .unexpectedEof => ⟨0, "end of file"⟩
  | .userError reason => ⟨0, reason⟩

/-- Opens a file as a stream. What opens without being readable, such as a directory, has a first
sector that cannot be read. -/
def openImage (path : String) : IO (Except Command.OpeningError Stream) := do
  match ← (IO.FS.Handle.mk path .read).toBaseIO with
  | .error error => return .error (refusal error)
  | .ok handle =>
      match ← handle.readBinToEnd.toBaseIO with
      | .ok bytes => return .ok (.whole (.ofByteArray bytes))
      | .error _ => return .ok (.unreadable Command.sectorSize)

def finish (outcome : Command.Outcome) : IO UInt32 := do
  IO.eprint outcome.messages
  let output ← IO.getStdout
  output.write ⟨outcome.output.toArray⟩
  output.flush
  return outcome.exitCode.toUInt32

def run (args : List String) : IO UInt32 := do
  match Command.plan name args with
  | .error outcome => finish outcome
  | .ok options =>
      let setting ← IO.getEnv logVariable
      let image ← openImage options.image
      finish (Command.execute name setting options image)

end Fat32.Program

def main (args : List String) : IO UInt32 := Fat32.Program.run args
