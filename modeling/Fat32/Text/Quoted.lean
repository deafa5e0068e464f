import Fat32.Text.Coded
import Fat32.Text.Hex

/-!
# Quoted text

A text between double quotes, as log messages show names. The quote, the backslash and the
usual controls have short escapes; characters that would not show are written as their code.
-/

namespace Fat32.Text.Quoted

def code (c : Char) : List Char :=
  ['\\', 'u', '\x7b'] ++ Nat.toDigits 16 c.toNat ++ ['\x7d']

def escape (c : Char) : List Char :=
  if c = '\x00' then ['\\', '0']
  else if c = '\t' then ['\\', 't']
  else if c = '\r' then ['\\', 'r']
  else if c = '\n' then ['\\', 'n']
  else if c = '\\' || c = '"' then ['\\', c]
  else if isCoded c then code c
  else [c]

def encode (text : String) : String :=
  String.ofList ('"' :: text.toList.flatMap escape ++ ['"'])

end Fat32.Text.Quoted
