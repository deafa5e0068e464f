/-!
# Comparison up to ASCII case

Names on a FAT volume are compared without regard to the case of the letters A to Z. All other
characters stand for themselves.
-/

namespace Fat32.Text

def caseFold (text : String) : List Char := text.toList.map Char.toLower

def sameIgnoringCase (a b : String) : Bool := caseFold a == caseFold b

theorem sameIgnoringCase_iff {a b : String} :
    sameIgnoringCase a b = true ↔ caseFold a = caseFold b := by
  simp [sameIgnoringCase]

end Fat32.Text
