import Fat32.Event
import Fat32.Text.Ascii

/-!
# Logging

Which events of a journal the user sees. The threshold is the least grave level shown; without
one nothing is.
-/

namespace Fat32

abbrev Threshold := Option Level

namespace Threshold

def shows (threshold : Threshold) (level : Level) : Bool :=
  threshold.any fun least => level.rank ≤ least.rank

def ofSetting? (text : String) : Option Threshold :=
  if Text.sameIgnoringCase text "off" then some none
  else (Level.all.find? fun level => Text.sameIgnoringCase text level.name).map some

def ofVerbosity : Nat → Threshold
  | 0 => some .warn
  | 1 => some .debug
  | _ => some .trace

/-- A setting goes before the verbosity asked for, unless it names no threshold. -/
def choose (setting : Option String) (verbosity : Nat) : Threshold :=
  (setting.bind ofSetting?).getD (ofVerbosity verbosity)

end Threshold

namespace Event

def logLine (event : Event) : String :=
  "[" ++ Text.padRight 5 event.level.name ++ "] " ++ event.text

def shown (threshold : Threshold) (journal : List Event) : List Event :=
  journal.filter fun event => threshold.shows event.level

end Event

end Fat32
