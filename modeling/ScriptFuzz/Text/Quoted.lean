import ScriptFuzz.Text.Printable

/-!
# Quoted text

How text from a script, a file name or a path is shown inside a message: between quotation marks,
with a backslash escape for such a mark, for the backslash, for the usual control characters, and
with `\u` and a hexadecimal code point for every other character that is not printable.
-/

namespace ScriptFuzz.Text

/-- The shortest lower-case hexadecimal form of a number. -/
def hex (n : Nat) : List Char := Nat.toDigits 16 n

/-- One character of text between two marks. The other kind of mark stands for itself. -/
def escape (mark c : Char) : List Char :=
  if c = '\x00' then ['\\', '0']
  else if c = '\t' then ['\\', 't']
  else if c = '\r' then ['\\', 'r']
  else if c = '\n' then ['\\', 'n']
  else if c = '\\' ∨ c = mark then ['\\', c]
  else if isPrintable c then [c]
  else '\\' :: 'u' :: '\x7b' :: (hex c.toNat ++ ['\x7d'])

/-- Text between two marks, with every character escaped. -/
def enclose (mark : Char) (cs : List Char) : String :=
  String.ofList (mark :: (cs.flatMap (escape mark) ++ [mark]))

/-- A text between double quotes. -/
def quoted (s : String) : String := enclose '"' s.toList

/-- A character between single quotes. -/
def quotedChar (c : Char) : String := enclose '\'' [c]

end ScriptFuzz.Text
