/-!
# Errors

Why a reading fails, as causes. Each cause carries what its message names; `Error.message` is
the only place where messages are worded.
-/

namespace Fat32

inductive Fault
  | outOfRange
  | bufferSize
  | medium
  deriving DecidableEq, Repr

inductive BootFlaw
  | tooShort
  | jump
  | signature
  | sectorBytes
  | clusterSectors
  | noTable
  | notFat32
  | activeTable
  | noData
  | rootTooLow
  | rootTooHigh
  | deviceSectorSize
  | deviceSectorTooLarge
  | other (reason : String)
  deriving DecidableEq, Repr

inductive Error
  | io (sector : Nat) (fault : Fault)
  | bootRecord (flaw : BootFlaw)
  | invalidCluster (cluster : UInt32)
  | corruptChain (start cluster : UInt32)
  | freeCluster (start cluster : UInt32)
  | tooDeep (path : String) (limit : Nat)
  | notFound (path : String)
  | notDirectory (path : String)
  | isDirectory (path : String)
  | cancelled (path : String)
  deriving DecidableEq, Repr

def Fault.message : Fault → String
  | .outOfRange => "secteur hors limites"
  | .bufferSize => "taille de buffer incorrecte"
  | .medium => "erreur du support"

def BootFlaw.message : BootFlaw → String
  | .tooShort => "boot sector de moins de 512 octets"
  | .jump => "instruction de saut invalide"
  | .signature => "signature 0xAA55 absente"
  | .sectorBytes => "octets par secteur hors de 512..=4096 ou pas une puissance de deux"
  | .clusterSectors => "secteurs par cluster pas une puissance de deux"
  | .noTable => "aucune FAT"
  | .notFat32 => "pas un volume FAT32"
  | .activeTable => "FAT active hors limites"
  | .noData => "pas de zone de données"
  | .rootTooLow => "cluster racine inférieur à 2"
  | .rootTooHigh => "cluster racine après la fin du volume"
  | .deviceSectorSize => "taille de secteur du device pas une puissance de deux"
  | .deviceSectorTooLarge => "secteurs du volume plus petits que ceux du device"
  | .other reason => reason

namespace Error

def message : Error → String
  | .io sector fault => s!"Erreur d'entrée/sortie au secteur {sector}: {fault.message}"
  | .bootRecord flaw => s!"Boot sector invalide: {flaw.message}"
  | .invalidCluster cluster => s!"Numéro de cluster invalide: {cluster}"
  | .corruptChain start cluster =>
      s!"Chaîne de clusters corrompue depuis {start} (au cluster {cluster})"
  | .freeCluster start cluster =>
      s!"La chaîne depuis {start} pointe vers un cluster libre après {cluster}"
  | .tooDeep path limit => s!"Chemin trop profond (limite {limit}): {path}"
  | .notFound path => s!"Fichier ou dossier non trouvé: {path}"
  | .notDirectory path => s!"Ce n'est pas un dossier: {path}"
  | .isDirectory path => s!"C'est un dossier: {path}"
  | .cancelled path => s!"Lecture annulée pendant {path}"

/-- An error that spoils no more than the subtree in which it arises. -/
def isSubtreeLocal : Error → Bool
  | .invalidCluster _ | .corruptChain .. | .freeCluster .. | .tooDeep .. => true
  | _ => false

end Error

end Fat32
