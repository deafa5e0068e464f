import Fat32.Text.Hex
import Fat32.Tree.Listing
import Fat32.Tree.Survey
import Fat32.Volume.Mount

/-!
# What commands print

The texts of the program as lists of lines.
-/

namespace Fat32.Command

def helpLines (program : String) : List String :=
  ["FAT32 tree",
    "",
    s!"Usage: {program} <image> [options] [commande] [args]",
    "",
    "Commandes:",
    "  tree             Affiche l'arbre complet (par défaut)",
    "  ls [chemin]      Liste les fichiers",
    "  cat <fichier>    Affiche un fichier",
    "  info             Affiche la géométrie du volume",
    "",
    "Options:",
    "  --max-depth <n>  Profondeur maximale pour tree",
    "  --keep-going     Omet les sous-arbres illisibles au lieu d'échouer",
    "  -v, -vv          Plus de logs (ou FAT32_TREE_LOG)",
    "",
    "Exemples:",
    s!"  {program} disk.img",
    s!"  {program} disk.img ls /docs",
    s!"  {program} disk.img cat /readme.txt"]

def nodeLine (listed : Listed) : String :=
  let indent := String.ofList (List.replicate (2 * (listed.depth + 1)) ' ')
  match listed.node with
  | .dir d => s!"{indent}{d.name}/"
  | .file f => s!"{indent}{f.name} ({f.size} octets)"

def treeLines (root : Dir) : List String :=
  "/" :: root.listing.map nodeLine
    ++ [s!"{root.dirCount} dossiers, {root.fileCount} fichiers, {root.totalSize} octets"]

def skippedLine (skipped : Survey.Skipped) : String :=
  s!"omis {skipped.path}: {skipped.error.message}"

def entryLine (entry : Entry) : String :=
  let kind := if entry.isDirectory then "DIR " else "FICH"
  let size := Text.padLeft ' ' 10 (toString entry.size)
  s!"{kind} {size}  {entry.name}"

def entryLines (entries : List Entry) : List String :=
  if entries.isEmpty then ["(vide)"] else entries.map entryLine

def infoLines (mounted : Mounted) : List String :=
  let volume := mounted.volume
  [s!"Nom OEM:             {volume.oemName}",
    s!"Nom du volume:       {volume.label}",
    s!"Id du volume:        {Text.hexUpper 8 volume.volumeId.toNat}",
    s!"Octets par secteur:  {volume.bytesPerSector}",
    s!"Secteurs/cluster:    {volume.sectorsPerCluster}",
    s!"Secteurs réservés:   {volume.reservedSectors}",
    s!"FATs:                {volume.tableCount} x {volume.sectorsPerTable} secteurs",
    s!"Secteurs au total:   {volume.totalSectors}",
    s!"Clusters:            {volume.clusterCount}",
    s!"Cluster racine:      {volume.rootCluster}"]
    ++ ((mounted.hints.bind Hints.freeClusters).map fun free =>
      s!"Clusters libres:     {free}").toList

end Fat32.Command
