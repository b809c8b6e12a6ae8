import TapeCalc.Text.Unseen

/-!
# Quoted characters

A character as a message shows it: between single quotes, with an escape where the character
itself would not be seen.
-/
namespace TapeCalc.Text

/-- Opening and closing brace, the frame of a hexadecimal escape. -/
def braced (inner : List Char) : List Char := '\x7b' :: inner ++ ['\x7d']

/-- The character or its escape, without the quotes. -/
def escaped (c : Char) : List Char :=
  if c = '\x00' then ['\\', '0']
  else if c = '\t' then ['\\', 't']
  else if c = '\r' then ['\\', 'r']
  else if c = '\n' then ['\\', 'n']
  else if c = '\x27' then ['\\', '\x27']
  else if c = '\\' then ['\\', '\\']
  else if isUnseen c then '\\' :: 'u' :: braced (Nat.toDigits 16 c.toNat)
  else [c]

def quoted (c : Char) : String := String.ofList ('\x27' :: escaped c ++ ['\x27'])

end TapeCalc.Text
