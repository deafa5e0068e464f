import Fat32.Directory.LongName
import Fat32.Event

/-!
# Decoding directories

A directory is decoded slot by slot. Between two slots the decoder remembers the fragments of a
long name that still wait for their entry, so a name may cross from one cluster to the next, and
whether the end of the directory has been seen, after which nothing counts.
-/

namespace Fat32

structure Decoder where
  pending : Option PartialName
  finished : Bool
  deriving DecidableEq, Repr

structure Decoded where
  decoder : Decoder
  entries : Array Entry
  events : Array Event
  deriving DecidableEq, Repr

namespace Decoder

def initial : Decoder := ⟨none, false⟩

structure Step where
  next : Decoder
  events : List Event
  entry : Option Entry
  deriving DecidableEq, Repr

def orphaned (decoder : Decoder) (why : Orphaning) : List Event :=
  if decoder.pending.isSome then [.fragmentsOrphaned why] else []

/-- A fragment with the last flag opens a name; any other continues the one that waits. A
fragment that fits neither way is reported, and no name waits after it. -/
def stepFragment (decoder : Decoder) (f : Fragment) : Step :=
  if f.isLast then
    let given := decoder.orphaned .newName
    match PartialName.open? f with
    | some name => ⟨⟨some name, false⟩, given, none⟩
    | none => ⟨⟨none, false⟩, given ++ [.sequenceInvalid f.order], none⟩
  else
    match decoder.pending.bind (·.place? f) with
    | some name => ⟨⟨some name, false⟩, [], none⟩
    | none => ⟨⟨none, false⟩, [.fragmentStray f.order], none⟩

/-- The name of an entry after the fragments that wait for it, and the report if they do not
make up a long name of it. A long name without characters gives way to the short one. -/
def nameFor (decoder : Decoder) (short : ShortEntry) : String × List Event :=
  let shortName := short.displayName
  match decoder.pending with
  | none => (shortName, [])
  | some name =>
      let expected := short.name.checksum
      if !name.isComplete then (shortName, [.longNameIncomplete shortName])
      else if name.checksum ≠ expected then
        (shortName, [.checksumMismatch name.checksum shortName expected])
      else if name.text = "" then (shortName, [])
      else (name.text, [])

def stepShort (decoder : Decoder) (short : ShortEntry) : Step :=
  let (name, events) := decoder.nameFor short
  let entry := short.named name
  ⟨initial, events ++ [.entryDecoded entry], some entry⟩

def step (decoder : Decoder) : Slot → Step
  | .endMark => ⟨⟨none, true⟩, decoder.orphaned .endOfDirectory, none⟩
  | .deleted => ⟨initial, decoder.orphaned .deletedEntry, none⟩
  | .fragment f => decoder.stepFragment f
  | .short e => decoder.stepShort e

/-- Decodes a slot, which counts for nothing after the end of the directory. -/
def feed (done : Decoded) (raw : RawSlot) : Decoded :=
  if done.decoder.finished then done
  else
    let step := done.decoder.step (.ofRaw raw)
    ⟨step.next, done.entries ++ step.entry.toList, done.events ++ step.events⟩

def decodeSlots (decoder : Decoder) (slots : List RawSlot) : Decoded :=
  slots.foldl feed ⟨decoder, #[], #[]⟩

def decode (decoder : Decoder) (bytes : Bytes) : Decoded := decoder.decodeSlots bytes.slots

end Decoder

def Entry.ofBytes (bytes : Bytes) : List Entry := (Decoder.initial.decode bytes).entries.toList

end Fat32
