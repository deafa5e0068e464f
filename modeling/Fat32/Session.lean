import Fat32.Device
import Fat32.Event

/-!
# Sessions

The use of a device over time: the device with what it remembers, the reads that were asked of it,
refused ones too, and the journal of the events reported so far. An access runs in a session and
gives a value or an error; the session goes on after either.
-/

namespace Fat32

structure DeviceRead where
  first : Nat
  count : Nat
  length : Nat
  deriving DecidableEq, Repr

structure Session where
  device : Device
  requests : Array DeviceRead
  journal : Array Event

abbrev Access := ExceptT Error (StateM Session)

def Access.perform {α : Type} (access : Access α) (session : Session) :
    Except Error α × Session :=
  Id.run (StateT.run (ExceptT.run access) session)

namespace Session

def start (device : Device) : Session := ⟨device, #[], #[]⟩

def report (events : List Event) : StateM Session Unit :=
  modify fun ⟨device, requests, journal⟩ => ⟨device, requests, journal ++ events⟩

def readSectors (first count length : Nat) : Access Bytes := do
  let transfer ← modifyGet fun (⟨device, requests, journal⟩ : Session) =>
    let (transfer, device) := device.readSectors first count length
    (transfer, ⟨device, requests.push ⟨first, count, length⟩, journal⟩)
  match transfer.outcome with
  | .ok () => return transfer.copied
  | .error error => throw error

/-- Fails once the device has served `deadline` stream reads, for a caller who has called off the
reading of `path`. Without a deadline it goes on. -/
def checkDeadline (deadline : Option Nat) (path : String) : Access Unit := do
  let count := (← get).device.readCount
  if deadline.any (· ≤ count) then throw (.cancelled path)

end Session

end Fat32
