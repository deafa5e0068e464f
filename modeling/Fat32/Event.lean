import Fat32.Directory.Entry
import Fat32.Error
import Fat32.Volume.Basic

/-!
# Events

What a reading has to report besides its result. Each event carries what its message names; its
level and its wording are given in one place each.
-/

namespace Fat32

inductive Level
  | error
  | warn
  | info
  | debug
  | trace
  deriving DecidableEq, Repr

namespace Level

def rank : Level → Nat
  | .error => 1
  | .warn => 2
  | .info => 3
  | .debug => 4
  | .trace => 5

def name : Level → String
  | .error => "error"
  | .warn => "warn"
  | .info => "info"
  | .debug => "debug"
  | .trace => "trace"

def all : List Level := [.error, .warn, .info, .debug, .trace]

def ofName? (text : String) : Option Level := all.find? fun level => level.name == text

theorem ofName?_name (level : Level) : ofName? level.name = some level := by
  cases level <;> decide

end Level

inductive Orphaning
  | endOfDirectory
  | deletedEntry
  | newName
  deriving DecidableEq, Repr

def Orphaning.text : Orphaning → String
  | .endOfDirectory => "fin du dossier"
  | .deletedEntry => "entrée supprimée"
  | .newName => "nouveau nom long commencé"

inductive Event
  | volumeRead (volume : Volume)
  | volumeExceedsDevice (needed available : Nat)
  | noHintSector
  | hintSectorUnreadable (sector : UInt16) (error : Error)
  | hintSectorInvalid (sector : UInt16)
  | chainLink (start current next : UInt32)
  | chainLast (start current : UInt32)
  | sequenceInvalid (order : UInt8)
  | fragmentStray (order : UInt8)
  | fragmentsOrphaned (why : Orphaning)
  | longNameIncomplete (shortName : String)
  | checksumMismatch (found : UInt8) (shortName : String) (expected : UInt8)
  | entryDecoded (entry : Entry)
  | directoryRead (path : String) (cluster : UInt32) (count : Nat)
  | directoryRevisited (path : String) (cluster : UInt32)
  | fileFound (path name : String) (size : UInt32)
  | subtreeOmitted (path : String) (error : Error)
  deriving DecidableEq, Repr

namespace Event

def level : Event → Level
  | .volumeRead .. | .directoryRead .. => .debug
  | .chainLink .. | .chainLast .. | .entryDecoded .. | .fileFound .. => .trace
  | _ => .warn

def byteText (b : UInt8) : String := "0x" ++ Text.hex 2 b.toNat

def volumeText (v : Volume) : String :=
  s!"boot sector: {v.bytesPerSector} octets/secteur, {v.sectorsPerCluster} secteurs/cluster, "
    ++ s!"{v.reservedSectors} réservés, {v.tableCount} FATs de {v.sectorsPerTable} secteurs, "
    ++ s!"cluster racine {v.rootCluster}, {v.clusterCount} clusters"

def text : Event → String
  | .volumeRead volume => volumeText volume
  | .volumeExceedsDevice needed available =>
      s!"le volume fait {needed} octets mais le device {available}, "
        ++ "les lectures après la fin échoueront"
  | .noHintSector => "pas de secteur FSInfo"
  | .hintSectorUnreadable sector error =>
      s!"lecture du secteur FSInfo {sector} impossible: {error.message}"
  | .hintSectorInvalid sector => s!"secteur FSInfo {sector} invalide"
  | .chainLink start current next => s!"chaîne {start}: {current} -> {next}"
  | .chainLast start current => s!"chaîne {start}: {current} est le dernier"
  | .sequenceInvalid order =>
      s!"fragment de nom long avec séquence invalide {byteText order}"
  | .fragmentStray order => s!"fragment de nom long isolé {byteText order}"
  | .fragmentsOrphaned why => s!"fragments de nom long orphelins ignorés: {why.text}"
  | .longNameIncomplete shortName =>
      s!"nom long incomplet pour {shortName}, nom court utilisé"
  | .checksumMismatch found shortName expected =>
      s!"somme de contrôle {byteText found} du nom long ne correspond pas à {shortName} "
        ++ s!"({byteText expected}), nom court utilisé"
  | .entryDecoded entry => s!"décodé {entry.text}"
  | .directoryRead path cluster count =>
      s!"dossier {path} au cluster {cluster}: {count} entrées"
  | .directoryRevisited path cluster => s!"{path}: cluster de dossier {cluster} déjà parcouru"
  | .fileFound path name size => s!"{path}: fichier {name} ({size} octets)"
  | .subtreeOmitted path error => s!"{path} omis: {error.message}"

end Event

end Fat32
